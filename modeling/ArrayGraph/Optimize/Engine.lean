import ArrayGraph.Optimize.Database

/-!
# Applying rules

One iteration applies the global rules of a stage, then takes the nodes in schedule order and tries
every local rule on each. Replacements that the graph refuses, or that would make it invalid, are
dropped together with the nodes that were added for them. A stage repeats its iteration until
nothing applies or its budget is spent.
-/

namespace ArrayGraph

/-- What came of a stage. -/
structure StageReport where
  name : String
  iterations : Nat
  applied : Nat
  /-- Whether the last iteration applied nothing, or the stage runs once only. -/
  converged : Bool
deriving DecidableEq, Repr, Inhabited

/-- What came of an optimization. -/
structure OptimizeReport where
  stages : List StageReport
  warnings : List String
deriving DecidableEq, Repr, Inhabited

namespace OptimizeReport

/-- How many rules were applied in all. -/
def applied (report : OptimizeReport) : Nat :=
  report.stages.foldl (fun total stage => total + stage.applied) 0

/-- What came of the stage with a given name. -/
def stage? (report : OptimizeReport) (name : String) : Option StageReport :=
  report.stages.find? (·.name = name)

end OptimizeReport

namespace Edit

variable {α : Type} [Arithmetic α]

/-- Applies a global rule. Gives the number of changes, which is at most one. -/
def applyGlobal (apply : Edit α OptimizeError Bool) : Edit α OptimizeError Nat := do
  if ← apply then pure 1 else pure 0

/-- The pairs of an output and another variable to put in its place. -/
def replacements (outputs new : List VarId) : List (VarId × VarId) :=
  (outputs.zip new).filter fun (old, other) => old ≠ other

/-- Puts replacements in place if the graph allows it, and cleans up if it does not. Gives the
number of changes, which is at most one. -/
def commit (pairs : List (VarId × VarId)) : Edit α OptimizeError Nat := fun editing =>
  match replaceValidated pairs editing with
  | .ok true after => .ok 1 after
  | .ok false after => .ok 0 { after with graph := after.graph.prune }
  | .error (Failure.error _) after => .ok 0 { after with graph := after.graph.prune }
  | .error (Failure.fault broken) after => .error (Failure.fault broken) after

/-- Tries a local rule on a node, which may have been removed in the meantime. Gives the number of
changes, which is at most one. -/
def applyLocal (apply : NodeId → Edit α GraphError (Option (List VarId))) (id : NodeId) :
    Edit α OptimizeError Nat := do
  let before ← graph
  match before.node? id with
  | none => pure 0
  | some node =>
    match ← (apply id).mapError OptimizeError.graph with
    | none =>
      if (← graph).nodes.size ≠ before.nodes.size then prune
      pure 0
    | some new =>
      let pairs := replacements node.outputs new
      if pairs.isEmpty then pure 0 else commit pairs

/-- Adds up the changes that a computation makes for each item of a list. -/
def sumOver {κ : Type} (items : List κ) (change : κ → Edit α OptimizeError Nat) :
    Edit α OptimizeError Nat :=
  items.foldlM (fun total item => return total + (← change item)) 0

/-- Applies rules once. Gives the number of changes. -/
def iterate (rules : List (Rule α)) : Edit α OptimizeError Nat := do
  let global ← sumOver rules fun rule =>
    match rule.action with
    | .onGraph apply => applyGlobal apply
    | .onNode _ => pure 0
  let locals := rules.filter (·.isLocal)
  if locals.isEmpty then pure global
  else
    let order ← ofChecked (((← graph).order Orderings.empty).mapError OptimizeError.graph)
    let changed ← sumOver order fun id =>
      sumOver locals fun rule =>
        match rule.action with
        | .onNode apply => applyLocal apply id
        | .onGraph _ => pure 0
    pure (global + changed)

/-- Applies rules until nothing changes, with a number of iterations left. Counts the iterations and
the changes, and says whether the last iteration changed nothing. -/
def repeatRules (rules : List (Rule α)) :
    Nat → Nat → Nat → Edit α OptimizeError (Nat × Nat × Bool)
  | 0, iterations, applied => pure (iterations, applied, false)
  | left + 1, iterations, applied => do
    let count ← iterate rules
    if count = 0 then pure (iterations + 1, applied, true)
    else repeatRules rules left (iterations + 1) (applied + count)

/-- Checks that the graph is valid. -/
def checkValid : Edit α OptimizeError Orderings := do
  ofChecked ((← graph).validate.mapError OptimizeError.alias)

/-- How many iterations a stage may take. A budget that the caller gives replaces that of every
repeated stage, and there is always at least one iteration. -/
def stageBudget (kind : StageKind) (budget : Option Nat) : Nat :=
  match kind with
  | .fixedPoint own => max (budget.getD own) 1
  | .once => 1

/-- Runs a stage. Adds to the report what came of it. -/
def runStage (budget : Option Nat) (report : OptimizeReport) (stage : Stage α)
    (rules : List (Rule α)) : Edit α OptimizeError OptimizeReport := do
  let limit := stageBudget stage.kind budget
  let (iterations, applied, settled) ← repeatRules rules limit 0 0
  let converged := settled || stage.kind = .once
  let warning :=
    s!"stage {Text.quoted stage.name} did not reach a fixpoint within {limit} iterations"
  let warnings := if converged then [] else [warning]
  for text in warnings do log .warn text
  if stage.mayDestroy then discard checkValid
  pure
    { stages := report.stages ++ [⟨stage.name, iterations, applied, converged⟩]
      warnings := report.warnings ++ warnings }

/-- Runs the stages that a query selects. Gives what came of them, and the orderings that the graph
needs in the end. -/
def optimize (database : Database α) (query : Query) (budget : Option Nat) :
    Edit α OptimizeError (OptimizeReport × Orderings) := do
  let report ← (database.select query).foldlM (fun report (stage, rules) =>
    runStage budget report stage rules) ⟨[], []⟩
  let orderings ← checkValid
  pure (report, orderings)

end Edit

end ArrayGraph
