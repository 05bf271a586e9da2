import ArrayGraph.Dataflow.Text
import ArrayGraph.Optimize.Engine
import ArrayGraph.Optimize.Rules.InPlace
import ArrayGraph.Optimize.Rules.Merge
import ArrayGraph.Optimize.Rules.Refine

/-!
# The standard stages

Merging comes first, between and last; simplifying precedes refining, so that refining rules see
simplified operands; nodes are made destructive only when all other changes are done.
-/

namespace ArrayGraph

variable {α : Type} [Arithmetic α]

/-- A rule that changes nothing and logs the graph. -/
def Rule.printGraph : Rule α where
  name := "print_current_graph"
  tags := .ofList ["print_graph"]
  action := .onGraph do
    let editing ← get
    Edit.log .debug ("current graph:\n" ++ editing.graph.text editing.memory)
    pure false

namespace Stage

/-- A stage that merges duplicates once. -/
def merging (name : String) (position : Float) (tags : List String) : Stage α :=
  ⟨name, position, .ofList ["merge"], .once, false, [Rule.merge tags]⟩

/-- A stage that is repeated within the default budget, with its own name as its tag. -/
def repeated (name : String) (position : Float) (rules : List (Rule α)) : Stage α :=
  ⟨name, position, .ofList [name], .fixedPoint StageKind.defaultBudget, false, rules⟩

/-- The stage that makes nodes destructive. -/
def inPlace : Stage α :=
  ⟨"inplace", 75, .ofList ["inplace"], .once, true, [Rule.makeInPlace ["inplace", "fast_run"]]⟩

/-- The stage that logs the graph. -/
def printing : Stage α := ⟨"print_graph", 101, .empty, .once, false, [Rule.printGraph]⟩

end Stage

/-- The standard database. -/
def Database.standard : Database α where
  stages :=
    [ .merging "merge1" 0 ["merge", "fast_run", "fast_compile"],
      .repeated "useless" 0.6 [.removeIdentity],
      .repeated "canonicalize" 1 [.addZero, .mulOne, .negNeg, .subSelf, .divSelf],
      .repeated "stabilize" 1.5 [.log1p, .logExp],
      .repeated "specialize" 2 [.mulSelf, .divByConstant],
      .merging "merge2" 49 ["merge", "fast_run"],
      .inPlace,
      .merging "merge3" 100 ["merge", "fast_run"],
      .printing ]

end ArrayGraph
