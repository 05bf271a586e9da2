import ArrayGraph.Optimize.Standard

/-!
# Sample host functions and rules

Small host functions and rules to try a graph with. Some are well behaved, and some are there to
show what happens with one that is not: a host function that writes into its input or returns too
few values, a rule that never stops applying or fails half way.
-/

namespace ArrayGraph.Sample

/-- The first input of a host function. -/
def firstInput (inputs : List Value) : Action Float OpError Value :=
  Action.ofChecked (Checked.orFault inputs.head? (.noSuchOperand 0))

/-- A new value like the first input, with a function applied to each element. -/
def mapFirst (f : Float → Float) (inputs : List Value) : Action Float OpError Value := do
  let input ← firstInput inputs
  Value.create input.element input.shape (((← get).contents input).map f)

/-- What host functions compute, by name. -/
def hostFunction? (name : String) : Option (List Value → Action Float OpError (List Value)) :=
  match name with
  -- Brings every element between minus one and one.
  | "clamp" => some fun inputs => do
    pure [← mapFirst (fun x => if x < -1 then -1 else if x > 1 then 1 else x) inputs]
  | "split" => some fun inputs => do
    pure [← mapFirst (fun x => -x) inputs, ← mapFirst (fun x => x * 2) inputs]
  -- Returns its input itself, without saying that the output is a view of it.
  | "ident" => some fun inputs => do pure [← firstInput inputs]
  | "answer" => some fun _ => do pure [← Value.scalar .float64 42]
  | "nothing" => some fun _ => pure []
  | "fails" => some fun _ => Action.raise (.custom "no")
  -- Writes into its input, without saying that it does.
  | "poke" => some fun inputs => do
    let input ← firstInput inputs
    input.set 0 99
    pure [← input.copy]
  | _ => none

/-- A local rule that is given the node itself. -/
def onNode (apply : Node Float → Edit Float GraphError (Option (List VarId))) : RuleAction Float :=
  .onNode fun id => do
    match (← Edit.graph).node? id with
    | some node => apply node
    | none => pure none

/-- A local rule that puts another node in the place of one that applies a scalar function. -/
def exchange (function : ScalarFunction) (make : Node Float → Op Float × List VarId) :
    RuleAction Float :=
  onNode fun node => do
    match node.op with
    | .elementwise found none =>
      if found = function then
        let (op, inputs) := make node
        pure (some [← Edit.addNodeSingle op inputs])
      else pure none
    | _ => pure none

/-- What sample rules do, by name. -/
def ruleAction? (name : String) : Option (RuleAction Float) :=
  match name with
  | "noop" => some (.onGraph (pure false))
  | "always" => some (.onGraph (pure true))
  | "boom" => some (.onGraph (throw (Failure.error (.duplicateStage "boom"))))
  | "commute" => some (exchange .add fun node => (.ofFunction .add, node.inputs.reverse))
  | "exp_to_sum" => some (exchange .exp fun node => (.sum, node.inputs))
  | "wrap_neg" => some (exchange .neg fun node => (.ofFunction .neg, node.outputs.take 1))
  | "waste" => some (onNode fun node => do
      discard (Edit.addNodeSingle .view (node.outputs.take 1))
      pure none)
  | "same" => some (onNode fun node => pure (some node.outputs))
  | "bad_arity" => some (onNode fun node => do
      let output := node.outputs.take 1
      pure (some [← Edit.addNodeSingle .sum (output ++ output)]))
  | _ => none

/-- A sample rule or a standard one, by name. Rules that come with several sets of tags have none
here. -/
def rule? (name : String) : Option (Rule Float) :=
  match name, ruleAction? name with
  | "merge", _ => some (Rule.merge [])
  | "make_inplace", _ => some (Rule.makeInPlace [])
  | _, some action => some ⟨name, .empty, action⟩
  | _, none =>
    let standard : Database Float := Database.standard
    (standard.stages.flatMap (·.rules)).find? (·.name = name)

end ArrayGraph.Sample
