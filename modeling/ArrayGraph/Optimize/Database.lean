import ArrayGraph.Optimize.Rule

/-!
# Stages, databases and queries

A stage is a list of rules that are applied together, once or until nothing more applies. A
database keeps stages in the order of their positions, and a query selects from it by tags.
-/

namespace ArrayGraph

/-- How often the rules of a stage are applied. -/
inductive StageKind where
  /-- Until nothing more applies, but no more often than the budget says. -/
  | fixedPoint (budget : Nat)
  | once
deriving DecidableEq, Repr

/-- The budget of a stage that does not name one. -/
def StageKind.defaultBudget : Nat := 16

/-- Rules that are applied together. -/
structure Stage (α : Type) where
  name : String
  /-- Where the stage comes among others. -/
  position : Float
  tags : TagSet
  kind : StageKind
  /-- Whether rules of the stage make nodes destructive. -/
  mayDestroy : Bool
  rules : List (Rule α)

/-- What to select from a database. -/
structure Query where
  /-- A rule must have one of these labels. -/
  anyOf : TagSet
  /-- A rule must have all of these labels. -/
  allOf : TagSet
  /-- Neither a rule nor its stage may have one of these labels. -/
  noneOf : TagSet
  /-- Stages beyond this position are left out. -/
  cutoff : Float
deriving Inhabited

namespace Query

/-- The position that no stage lies beyond. -/
def noCutoff : Float := 1.0 / 0.0

/-- Selects nothing. -/
def none : Query := ⟨.empty, .empty, .empty, noCutoff⟩

/-- Selects also by some more labels. -/
def including (query : Query) (tags : List String) : Query :=
  { query with anyOf := query.anyOf.insertAll tags }

/-- Asks for some more labels. -/
def requiring (query : Query) (tags : List String) : Query :=
  { query with allOf := query.allOf.insertAll tags }

/-- Forbids some more labels. -/
def excluding (query : Query) (tags : List String) : Query :=
  { query with noneOf := query.noneOf.insertAll tags }

variable {α : Type}

/-- Whether a query selects a rule of an admitted stage. -/
def selects (query : Query) (rule : Rule α) : Bool :=
  rule.labels.meets query.anyOf && query.allOf.isSubset rule.labels &&
    !rule.labels.meets query.noneOf

/-- Whether a query admits a stage at all. -/
def admits (query : Query) (stage : Stage α) : Bool :=
  stage.position ≤ query.cutoff && !query.noneOf.contains stage.name &&
    !stage.tags.meets query.noneOf

/-- The text of a query. -/
def text (query : Query) : String :=
  "RewriteQuery \x7b include: " ++ query.anyOf.text ++ ", require: " ++ query.allOf.text ++
    ", exclude: " ++ query.noneOf.text ++ ", position_cutoff: " ++
    NumberFormat.listing.write query.cutoff ++ " \x7d"

end Query

/-- Stages by rising position. Stages at one position keep the order in which they came. -/
structure Database (α : Type) where
  stages : List (Stage α)

namespace Database

variable {α : Type}

/-- The database without stages. -/
def empty : Database α := ⟨[]⟩

/-- Stages with one more, before the first that lies beyond it. -/
def insertStage (stage : Stage α) : List (Stage α) → List (Stage α)
  | [] => [stage]
  | head :: rest =>
    if stage.position < head.position then stage :: head :: rest
    else head :: insertStage stage rest

/-- Adds a stage, whose name must be a new one. -/
def register (database : Database α) (stage : Stage α) : Checked OptimizeError (Database α) :=
  if database.stages.any (·.name = stage.name) then
    Checked.raise (.duplicateStage stage.name)
  else Except.ok ⟨insertStage stage database.stages⟩

/-- The admitted stages with the rules that a query selects, leaving out stages without any. -/
def select (database : Database α) (query : Query) : List (Stage α × List (Rule α)) :=
  (database.stages.filter query.admits).filterMap fun stage =>
    match stage.rules.filter query.selects with
    | [] => none
    | rules => some (stage, rules)

end Database

end ArrayGraph
