import ArrayGraph.Proofs.Typing
import ArrayGraph.Proofs.Dataflow.Invariant

/-!
# Updates that fail

A graph can also be changed where it is, one place after the other. Then an update that fails may have
changed something before, and that its graph is as it was is something to prove: either everything that
can fail comes first, or what has been changed is put back. Adding a node finds out about the types
before the first variable is there, a replacement checks before it redirects, and a list of
replacements, each of which prunes the graph, puts back a copy that was made at the beginning.

An update in place gives the same answer and the same graph as the function that makes a new graph.
Only for a fault, after which nothing is promised, a list of replacements may stop halfway. So what is
known about the functions is known about the updates, and the one call that leaves a node behind when
it fails, an operation with several outputs where one is wanted, is the same in both.
-/

namespace ArrayGraph

/-- A computation that changes a graph in place. What it has changed before it fails stays changed. -/
abbrev Update (α β : Type) := EStateM (Failure GraphError) (Dataflow α) β

namespace Update

variable {α β : Type}

/-- The answer of an update, and the graph after it. -/
def outcome (update : Update α β) (graph : Dataflow α) : Checked GraphError β × Dataflow α :=
  match update graph with
  | .ok value after => (Except.ok value, after)
  | .error failure after => (Except.error failure, after)

/-- Two outcomes have the same answer and, unless that is a fault, the same graph. -/
structure Agrees (outcome expected : Checked GraphError β × Dataflow α) : Prop where
  answer : outcome.1 = expected.1
  graph : (∀ broken, expected.1 ≠ Except.error (Failure.fault broken)) → outcome.2 = expected.2

/-- Looks at the graph and changes nothing. -/
def look (test : Dataflow α → Checked GraphError β) : Update α β := fun graph =>
  match test graph with
  | Except.ok value => .ok value graph
  | Except.error failure => .error failure graph

/-- Adds a variable. -/
def pushVar (var : Variable) : Update α VarId := fun graph =>
  .ok ⟨graph.vars.size⟩ { graph with vars := graph.vars.push var }

/-- Adds a node, after the variables it computes. -/
def addNode [Arithmetic α] (op : Op α) (inputs : List VarId) : Update α (List VarId) := do
  look fun graph => inputs.forM (graph.requireVar ·)
  let types ← look fun graph =>
    (op.inferTypes (inputs.map graph.type)).mapError GraphError.op
  let node : NodeId := ⟨(← get).nodes.size⟩
  let outputs ← (Graph.outputVariables node types).mapM pushVar
  modify fun graph => { graph with nodes := graph.nodes.push (some ⟨op, inputs, outputs⟩) }
  pure outputs

/-- Adds a node and then counts its outputs. -/
def addNodeSingle [Arithmetic α] (op : Op α) (inputs : List VarId) : Update α VarId := do
  let outputs ← addNode op inputs
  look fun _ => (Graph.single op outputs).mapError GraphError.op

/-- Redirects the readers of a variable after a check, and prunes. -/
def replace (old new : VarId) : Update α Unit :=
  if old = new then pure ()
  else do
    look (·.checkReplacement old new)
    modify (·.redirect old new)
    modify (·.prune)

/-- Makes replacements one after the other until one fails. -/
def replaceEach (pairs : List (VarId × VarId)) : Update α Unit :=
  pairs.forM fun (old, new) => replace old new

/-- Makes replacements, and puts back a copy of the graph if there is an error. -/
def replaceAll (pairs : List (VarId × VarId)) : Update α Unit := do
  let backup ← get
  tryCatch (replaceEach pairs) fun failure => do
    match failure with
    | Failure.error _ => set backup
    | Failure.fault _ => pure ()
    throw failure

/-- Puts a variable in the place of an output after a check, and prunes. -/
def replaceOutput (index : Nat) (new : VarId) : Update α Unit := do
  let old ← look fun graph => Checked.orError graph.outputs[index]? (.noSuchOutput index)
  look (·.requireVar new)
  look fun graph =>
    if graph.type old ≠ graph.type new then
      Checked.raise (.typeMismatch old new (graph.type old) (graph.type new))
    else Except.ok ()
  modify fun graph => { graph with outputs := graph.outputs.set index new }
  modify (·.prune)

/-- Puts an operation at a node after a check. -/
def replaceNodeOp [Arithmetic α] (id : NodeId) (op : Op α) : Update α Unit := do
  let node ← look (·.getNode id)
  let types ← look fun graph =>
    (op.inferTypes (node.inputs.map graph.type)).mapError GraphError.op
  look fun graph =>
    if types = node.outputs.map graph.type then Except.ok ()
    else Checked.raise (.opSignature node.op.name op.name)
  modify fun graph =>
    { graph with nodes := graph.nodes.setIfInBounds id.index (some { node with op }) }

end Update

/-- The answer of a function that makes a new graph, and the graph after it. If the function fails there
is no new graph, and the old one is left. -/
def Dataflow.settle {α β : Type} (graph : Dataflow α)
    (made : Checked GraphError (β × Dataflow α)) : Checked GraphError β × Dataflow α :=
  match made with
  | Except.ok (value, after) => (Except.ok value, after)
  | Except.error failure => (Except.error failure, graph)

/-- The update that makes a change in place. -/
def Change.update {α : Type} [Arithmetic α] : Change α → Update α (List VarId)
  | .addConstant value => do return [← Update.pushVar ⟨value.type, .constant value, none⟩]
  | .addNode op inputs => Update.addNode op inputs
  | .replace old new => do Update.replace old new; return []
  | .replaceAll pairs => do Update.replaceAll pairs; return []
  | .replaceOutput index new => do Update.replaceOutput index new; return []
  | .replaceNodeOp id op => do Update.replaceNodeOp id op; return []
  | .prune => do modify (·.prune); return []

/-- What a graph can be asked to do. -/
inductive Request (α : Type) where
  | change (wanted : Change α)
  /-- To add a node of which one output is expected. -/
  | addNodeSingle (op : Op α) (inputs : List VarId)

namespace Request

variable {α : Type} [Arithmetic α]

/-- The answer to a request and the graph after it, by functions that make new graphs. -/
def apply (graph : Dataflow α) : Request α → Checked GraphError (List VarId) × Dataflow α
  | .change wanted => graph.settle (wanted.apply graph)
  | .addNodeSingle op inputs =>
    let added := graph.addNodeSingle op inputs
    (added.1.map ([·]), added.2)

/-- The answer to a request and the graph after it, by an update in place. -/
def carryOut (graph : Dataflow α) : Request α → Checked GraphError (List VarId) × Dataflow α
  | .change wanted => wanted.update.outcome graph
  | .addNodeSingle op inputs =>
    let added := (Update.addNodeSingle op inputs).outcome graph
    (added.1.map ([·]), added.2)

end Request

namespace Update

variable {α β γ : Type} {update : Update α β} {next : β → Update α γ} {graph middle : Dataflow α}
  {value : β} {failure : Failure GraphError} {old new : VarId}

theorem outcome_bind_of_ok (first : update.outcome graph = (Except.ok value, middle)) :
    (update >>= next).outcome graph = (next value).outcome middle := by
  unfold outcome at first
  split at first
  · rename_i ran
    cases first
    simp only [outcome, bind, EStateM.bind, ran]
  · cases first

theorem outcome_bind_of_error (first : update.outcome graph = (Except.error failure, middle)) :
    (update >>= next).outcome graph = (Except.error failure, middle) := by
  unfold outcome at first
  split at first
  · cases first
  · rename_i ran
    cases first
    simp only [outcome, bind, EStateM.bind, ran]

/-- The handler finds the graph as the failure left it. -/
theorem outcome_tryCatch (handler : Failure GraphError → Update α β) :
    (tryCatch update handler).outcome graph =
      match update.outcome graph with
      | (Except.ok value, after) => (Except.ok value, after)
      | (Except.error failure, stopped) => (handler failure).outcome stopped := by
  simp only [outcome, tryCatch, tryCatchThe, MonadExceptOf.tryCatch, EStateM.tryCatch]
  cases update graph <;> rfl

@[simp]
theorem outcome_look (test : Dataflow α → Checked GraphError β) :
    (look test).outcome graph = (test graph, graph) := by
  simp only [outcome, look]
  cases test graph <;> rfl

/-- What comes after a look depends on what was seen. -/
theorem outcome_look_bind (test : Dataflow α → Checked GraphError β) :
    (look test >>= next).outcome graph =
      match test graph with
      | Except.ok value => (next value).outcome graph
      | Except.error failure => (Except.error failure, graph) := by
  cases seen : test graph with
  | ok value => exact outcome_bind_of_ok (by rw [outcome_look, seen])
  | error failure => exact outcome_bind_of_error (by rw [outcome_look, seen])

theorem outcome_get : (get : Update α (Dataflow α)).outcome graph = (Except.ok graph, graph) := rfl

theorem outcome_pushVar (var : Variable) : (pushVar var).outcome graph =
    (Except.ok ⟨graph.vars.size⟩, { graph with vars := graph.vars.push var }) := rfl

/-- Variables that are added one by one come to stand one after the other. -/
theorem outcome_pushAll (vars : List Variable) : (vars.mapM pushVar).outcome graph =
    (Except.ok ((List.range vars.length).map fun index => ⟨graph.vars.size + index⟩),
      { graph with vars := graph.vars ++ vars }) := by
  induction vars generalizing graph with
  | nil => simp [outcome, pure, EStateM.pure]
  | cons var rest ih =>
    rw [List.mapM_cons, outcome_bind_of_ok (outcome_pushVar var), outcome_bind_of_ok ih]
    simp [outcome, pure, EStateM.pure, List.range_succ_eq_map, Nat.add_assoc, Nat.add_comm 1]

/-- The check comes first, and after it nothing fails. -/
theorem outcome_replace : (replace old new).outcome graph =
    graph.settle ((graph.replace old new).map (((), ·))) := by
  unfold replace Dataflow.replace
  split
  · rfl
  · rw [outcome_look_bind]
    cases graph.checkReplacement old new <;> rfl

theorem outcome_replaceOutput {index : Nat} : (replaceOutput index new).outcome graph =
    graph.settle ((graph.replaceOutput index new).map (((), ·))) := by
  unfold replaceOutput Dataflow.replaceOutput
  rw [outcome_look_bind]
  cases Checked.orError graph.outputs[index]? (GraphError.noSuchOutput index) with
  | error failure => rfl
  | ok old =>
    simp only [Checked.ok_bind, outcome_look_bind]
    cases (graph.requireVar new : Checked GraphError Unit) with
    | error failure => rfl
    | ok _ =>
      simp only [Checked.ok_bind]
      by_cases same : graph.type old = graph.type new
      · rw [if_neg (not_not.mpr same), if_neg (not_not.mpr same)]
        rfl
      · rw [if_pos same, if_pos same]
        rfl

/-- Replacements go on as far as the function does, which is all the way or up to a failure. -/
theorem replaceEach_cases (graph : Dataflow α) (pairs : List (VarId × VarId)) :
    (∃ after, graph.replaceAll pairs = Except.ok after ∧
      (replaceEach pairs).outcome graph = (Except.ok (), after)) ∨
    ∃ failure stopped, graph.replaceAll pairs = Except.error failure ∧
      (replaceEach pairs).outcome graph = (Except.error failure, stopped) := by
  induction pairs generalizing graph with
  | nil => exact Or.inl ⟨graph, rfl, rfl⟩
  | cons pair rest ih =>
    rcases pair with ⟨old, new⟩
    have first : (replace old new).outcome graph =
        graph.settle ((graph.replace old new).map (((), ·))) := outcome_replace
    have unfolded : (replaceEach ((old, new) :: rest) : Update α Unit) =
        replace old new >>= fun _ => replaceEach rest := rfl
    rw [unfolded]
    simp only [Dataflow.replaceAll, List.foldlM_cons]
    cases replaced : graph.replace old new with
    | error failure =>
      rw [replaced] at first
      exact Or.inr ⟨failure, graph, rfl, outcome_bind_of_error first⟩
    | ok middle =>
      rw [replaced] at first
      rw [outcome_bind_of_ok first]
      exact ih middle

/-- Either all replacements are made, or an error has been met and the copy is back. -/
theorem agrees_replaceAll (pairs : List (VarId × VarId)) : Agrees ((replaceAll pairs).outcome graph)
    (graph.settle ((graph.replaceAll pairs).map (((), ·)))) := by
  unfold replaceAll
  rw [outcome_bind_of_ok outcome_get, outcome_tryCatch]
  rcases replaceEach_cases graph pairs with ⟨after, made, ran⟩ | ⟨failure, stopped, made, ran⟩
  · rw [ran, made]
    exact ⟨rfl, fun _ => rfl⟩
  · rw [ran, made]
    cases failure with
    | error cause => exact ⟨rfl, fun _ => rfl⟩
    | fault broken => exact ⟨rfl, fun sound => absurd rfl (sound broken)⟩

/-- An update that only has an effect agrees with a function that gives only a graph also when the
variables that were added are asked for, of which there are none. -/
theorem agrees_andNone {update : Update α Unit} {made : Checked GraphError (Dataflow α)}
    (agrees : Agrees (update.outcome graph) (graph.settle (made.map (((), ·))))) :
    Agrees (Update.outcome (do update; return ([] : List VarId)) graph)
      (graph.settle (do Except.ok ([], ← made))) := by
  cases made with
  | error failure =>
    have ran : update.outcome graph = (Except.error failure, (update.outcome graph).2) :=
      Prod.ext agrees.answer rfl
    rw [outcome_bind_of_error ran]
    refine ⟨rfl, fun sound => agrees.graph fun broken failed => ?_⟩
    cases failed
    exact sound broken rfl
  | ok after =>
    have ran : update.outcome graph = (Except.ok (), after) :=
      Prod.ext agrees.answer (agrees.graph fun _ failed => by cases failed)
    rw [outcome_bind_of_ok ran]
    exact ⟨rfl, fun _ => rfl⟩

section Operations

variable [Arithmetic α] {op : Op α} {inputs : List VarId}

/-- Everything that can fail comes before the first variable. -/
theorem outcome_addNode : (addNode op inputs).outcome graph =
    graph.settle (graph.addNode op inputs) := by
  unfold addNode Dataflow.addNode
  rw [outcome_look_bind]
  cases (inputs.forM (graph.requireVar ·) : Checked GraphError Unit) with
  | error failure => rfl
  | ok _ =>
    simp only [Checked.ok_bind, outcome_look_bind]
    cases (op.inferTypes (inputs.map graph.type)).mapError GraphError.op with
    | error failure => rfl
    | ok types =>
      simp only [Checked.ok_bind]
      rw [outcome_bind_of_ok outcome_get, outcome_bind_of_ok (outcome_pushAll _)]
      simp [Dataflow.settle, Graph.outputVariables]
      rfl

theorem outcome_replaceNodeOp {id : NodeId} : (replaceNodeOp id op).outcome graph =
    graph.settle ((graph.replaceNodeOp id op).map (((), ·))) := by
  unfold replaceNodeOp Dataflow.replaceNodeOp
  rw [outcome_look_bind]
  cases graph.getNode id with
  | error failure => rfl
  | ok node =>
    simp only [Checked.ok_bind, outcome_look_bind]
    cases (op.inferTypes (node.inputs.map graph.type)).mapError GraphError.op with
    | error failure => rfl
    | ok types =>
      simp only [Checked.ok_bind]
      by_cases same : types = node.outputs.map graph.type
      · rw [if_pos same, if_pos same]
        rfl
      · rw [if_neg same, if_neg same]
        rfl

theorem outcome_addNodeSingle : (addNodeSingle op inputs).outcome graph =
    graph.addNodeSingle op inputs := by
  have added : (addNode op inputs).outcome graph = graph.settle (graph.addNode op inputs) :=
    outcome_addNode
  unfold addNodeSingle Dataflow.addNodeSingle
  cases made : graph.addNode op inputs with
  | error failure =>
    rw [made] at added
    exact outcome_bind_of_error added
  | ok content =>
    rw [made] at added
    rw [outcome_bind_of_ok added, outcome_look]

end Operations

end Update

section Requests

variable {α : Type} {graph : Dataflow α}

theorem Update.Agrees.of_eq {β : Type} {outcome expected : Checked GraphError β × Dataflow α}
    (same : outcome = expected) : Agrees outcome expected :=
  ⟨by rw [same], fun _ => by rw [same]⟩

/-- The answer and the graph of a function that fails. -/
theorem Dataflow.settle_of_error {β : Type} {made : Checked GraphError (β × Dataflow α)}
    {failure : Failure GraphError} (failed : (graph.settle made).1 = Except.error failure) :
    (graph.settle made).2 = graph := by
  cases made with
  | ok content => cases failed
  | error _ => rfl

variable [Arithmetic α] {op : Op α} {inputs outputs : List VarId} {request : Request α}

/-- In place or not, a request has the same answer and leaves the same graph. -/
theorem Request.agrees (request : Request α) (graph : Dataflow α) :
    Update.Agrees (request.carryOut graph) (request.apply graph) := by
  cases request with
  | addNodeSingle op inputs =>
    refine .of_eq ?_
    simp only [carryOut, apply, Update.outcome_addNodeSingle]
  | change wanted =>
    cases wanted with
    | addConstant value => exact .of_eq rfl
    | addNode op inputs => exact .of_eq Update.outcome_addNode
    | replace old new => exact Update.agrees_andNone (.of_eq Update.outcome_replace)
    | replaceAll pairs => exact Update.agrees_andNone (Update.agrees_replaceAll pairs)
    | replaceOutput index new => exact Update.agrees_andNone (.of_eq Update.outcome_replaceOutput)
    | replaceNodeOp id op => exact Update.agrees_andNone (.of_eq Update.outcome_replaceNodeOp)
    | prune => exact .of_eq rfl

/-- With an operation that has one result, what can fail comes before the node is added. -/
theorem Dataflow.addNodeSingle_of_error (fits : op.resultCount = 1) {failure : Failure GraphError}
    (failed : (graph.addNodeSingle op inputs).1 = Except.error failure) :
    (graph.addNodeSingle op inputs).2 = graph := by
  unfold addNodeSingle at failed ⊢
  cases made : graph.addNode op inputs with
  | error failure => rfl
  | ok content =>
    rcases content with ⟨outputs, extended⟩
    have count : outputs.length = op.resultCount := by
      simpa using Op.length_of_inferTypes (addNode_eq_ok made).inferred
    rcases List.length_eq_one_iff.mp (count.trans fits) with ⟨output, rfl⟩
    rw [made] at failed
    cases failed

/-- A failed request leaves the graph to which a function was applied. -/
theorem Request.apply_of_error
    (fits : ∀ op inputs, request = .addNodeSingle op inputs → op.resultCount = 1)
    {failure : Failure GraphError} (failed : (request.apply graph).1 = Except.error failure) :
    (request.apply graph).2 = graph := by
  cases request with
  | change wanted => exact Dataflow.settle_of_error failed
  | addNodeSingle op inputs =>
    cases answer : (graph.addNodeSingle op inputs).1 with
    | error failure => exact Dataflow.addNodeSingle_of_error (fits op inputs rfl) answer
    | ok output =>
      simp only [apply, answer] at failed
      cases failed

/-- A request that ends in an error leaves the graph as it was, whether it is carried out in place or by
functions that make new graphs, which agree. The one exception is an operation with another number of
results where one is wanted. -/
theorem Request.unchanged_of_error (request : Request α)
    (fits : ∀ op inputs, request = .addNodeSingle op inputs → op.resultCount = 1)
    (graph : Dataflow α) : Update.Agrees (request.carryOut graph) (request.apply graph) ∧
      ∀ cause, (request.carryOut graph).1 = Except.error (Failure.error cause) →
        (request.carryOut graph).2 = graph ∧
          request.apply graph = (Except.error (Failure.error cause), graph) := by
  have agrees := request.agrees graph
  refine ⟨agrees, fun cause failed => ?_⟩
  have applied : (request.apply graph).1 = Except.error (Failure.error cause) :=
    agrees.answer.symm.trans failed
  have unchanged := Request.apply_of_error fits applied
  refine ⟨(agrees.graph ?_).trans unchanged, Prod.ext applied unchanged⟩
  intro broken other
  rw [applied] at other
  cases other

/-- The second of these replacements makes a cycle, after the first has removed a node. -/
theorem Request.unchanged_of_error_exponential :
    let pairs : List (VarId × VarId) := [(⟨2⟩, ⟨1⟩), (⟨0⟩, ⟨1⟩)]
    ((Update.replaceEach pairs).outcome Dataflow.capturedExponential).2.nodes.toList.map
        Option.isSome = [true, false] ∧
      (Request.change (.replaceAll pairs)).carryOut Dataflow.capturedExponential =
        (Except.error (Failure.error (.cycle ⟨0⟩ ⟨1⟩)), Dataflow.capturedExponential) := by
  intro pairs
  have failed : ((Request.change (.replaceAll pairs)).carryOut Dataflow.capturedExponential).1 =
      Except.error (Failure.error (.cycle ⟨0⟩ ⟨1⟩)) := by
    cbv
  refine ⟨by cbv, Prod.ext failed ?_⟩
  refine ((Request.unchanged_of_error _ ?_ Dataflow.capturedExponential).2 _ failed).1
  intro op inputs same
  cases same

/-- A function of the host that would split a vector in two. -/
def splitInTwo : HostFunction Float where
  name := "split"
  inputTypes := [ArrayType.ofRank .float64 1]
  outputTypes := [ArrayType.ofRank .float64 1, ArrayType.ofRank .float64 1]
  identity := 0
  run _ := throw (Failure.error (.custom "not called"))

/-- Asked for a node with one output, the graph gets one with two, and the answer is an error. -/
theorem Request.not_unchanged_of_error_splitInTwo :
    let result := (Request.addNodeSingle (.host splitInTwo) [⟨1⟩]).carryOut Dataflow.capturedExponential
    result.1 = Except.error (Failure.error (.op (.outputCount "split" 1 2))) ∧
      result = (Request.addNodeSingle (.host splitInTwo) [⟨1⟩]).apply Dataflow.capturedExponential ∧
      result.2.vars.size = 5 ∧ result.2.nodes.size = 3 ∧ result.2 ≠ Dataflow.capturedExponential := by
  intro result
  have places : result.2.nodes.size = 3 := by cbv
  refine ⟨by cbv, by cbv, by cbv, places, fun same => ?_⟩
  rw [same] at places
  cases places

end Requests

end ArrayGraph
