import ArrayGraph.Executable
import ArrayGraph.Optimize.Standard

/-!
# Modes

A mode pairs a query, which says how a graph is optimized, with the name of a linker, which says
how it is executed. A registry knows modes, queries and linkers by name.
-/

namespace ArrayGraph

/-- Why a mode could not be resolved. -/
inductive ModeError where
  | unknownMode (name : String)
  | unknownOptimizer (name : String)
  | unknownLinker (name : String)
deriving DecidableEq, Repr

/-- The text of an error. -/
def ModeError.message : ModeError → String
  | .unknownMode name => s!"no mode named {Text.quoted name} is registered"
  | .unknownOptimizer name => s!"no optimizer named {Text.quoted name} is registered"
  | .unknownLinker name => s!"no linker named {Text.quoted name} is registered"

/-- How functions are optimized and executed. -/
structure Mode where
  optimizer : Query
  linker : String
  profile : Bool
deriving Inhabited

/-- How a caller asks for a mode. -/
inductive ModeSpec where
  | named (name : String)
  /-- An optimizer and a linker by their names. -/
  | custom (optimizer linker : String)
  | given (mode : Mode)

/-- The mode that is used when none is asked for. -/
def ModeSpec.standard : ModeSpec := .named "FAST_RUN"

/-- A mode whose linker has been found. -/
structure ResolvedMode where
  optimizer : Query
  linker : Linker
  profile : Bool

/-- The text of a resolved mode. -/
def ResolvedMode.text (mode : ResolvedMode) : String :=
  "ResolvedMode \x7b optimizer: " ++ mode.optimizer.text ++ ", linker: " ++
    Text.doubleQuoted mode.linker.name ++ ", profile: " ++
    (if mode.profile then "true" else "false") ++ " \x7d"

/-- Modes, optimizers and linkers by name. The latest entry under a name counts. -/
structure ModeRegistry where
  modes : List (String × Mode)
  optimizers : List (String × Query)
  linkers : List Linker

namespace ModeRegistry

/-- The registry without entries. -/
def empty : ModeRegistry := ⟨[], [], []⟩

def registerMode (registry : ModeRegistry) (name : String) (mode : Mode) : ModeRegistry :=
  { registry with modes := (name, mode) :: registry.modes }

def registerOptimizer (registry : ModeRegistry) (name : String) (query : Query) : ModeRegistry :=
  { registry with optimizers := (name, query) :: registry.optimizers }

def registerLinker (registry : ModeRegistry) (linker : Linker) : ModeRegistry :=
  { registry with linkers := linker :: registry.linkers }

/-- The query that takes all rules meant for fast execution. -/
def fastRun : Query := Query.none.including ["fast_run"]

/-- The query that takes the rules that are quick to apply. -/
def fastCompile : Query := Query.none.including ["fast_compile"]

/-- The standard registry. -/
def standard : ModeRegistry where
  optimizers :=
    [ ("None", Query.none),
      ("merge", Query.none.including ["merge"]),
      ("fast_compile", fastCompile),
      ("fast_run", fastRun),
      ("fast_run_stable", fastRun.excluding ["unstable"]),
      ("stabilize", { fastRun with cutoff := 1.5 }),
      ("unsafe", fastRun.including ["unsafe"]),
      ("o2", Query.none.including ["fast_compile", "stabilize"]),
      ("o3", fastRun.excluding ["inplace"]) ]
  linkers := [.perform, .plan]
  modes :=
    [ ("FAST_COMPILE", ⟨fastCompile, "perform", false⟩),
      ("FAST_RUN", ⟨fastRun, "plan", false⟩),
      ("FAST_RUN_STABLE", ⟨fastRun.excluding ["unstable"], "plan", false⟩) ]

/-- The mode with a given name. -/
def mode (registry : ModeRegistry) (name : String) : Checked ModeError Mode :=
  Checked.orError (registry.modes.lookup name) (.unknownMode name)

/-- The optimizer with a given name. -/
def optimizer (registry : ModeRegistry) (name : String) : Checked ModeError Query :=
  Checked.orError (registry.optimizers.lookup name) (.unknownOptimizer name)

/-- The linker with a given name. -/
def linker (registry : ModeRegistry) (name : String) : Checked ModeError Linker :=
  Checked.orError (registry.linkers.find? (·.name = name)) (.unknownLinker name)

/-- The mode that a caller asks for. -/
def resolve (registry : ModeRegistry) (spec : ModeSpec) : Checked ModeError ResolvedMode := do
  let mode ← match spec with
    | .named name => registry.mode name
    | .custom optimizer linker => do
      let query ← registry.optimizer optimizer
      Except.ok ⟨query, linker, false⟩
    | .given mode => Except.ok mode
  let linker ← registry.linker mode.linker
  Except.ok ⟨mode.optimizer, linker, mode.profile⟩

end ModeRegistry

end ArrayGraph
