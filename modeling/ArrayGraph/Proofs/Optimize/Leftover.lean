import ArrayGraph.Proofs.Optimize.Ready

/-!
# What rules leave behind

A rule on nodes may add constants and nodes before it answers. What was added and is not needed is
removed when the rule does not match, when its replacements are put in place, and when they are refused.
It is not removed when the rule offers variables and each of them is the one that it would replace: there
is nothing to put in place then, and nothing else happens. So an iteration leaves nodes that no output
depends on exactly where a rule has added nodes and offered nothing new.
-/

namespace ArrayGraph

variable {α : Type} [Arithmetic α]

/-- A change that adds to the graph. -/
def Change.IsAddition : Change α → Prop
  | .addConstant _ => True
  | .addNode _ _ => True
  | _ => False

namespace Dataflow

variable {graph later : Dataflow α}

/-- A graph with constants and nodes added to it. -/
def GrowsTo (graph later : Dataflow α) : Prop :=
  ∃ changes : List (Change α), (∀ change ∈ changes, change.IsAddition) ∧
    later = graph.changeAll changes

/-- A graph to which nothing but additions has happened is formed and has all that it had. -/
theorem GrowsTo.formed_extends (grows : graph.GrowsTo later) (formed : graph.Formed) :
    later.Formed ∧ graph.Extends later := by
  rcases grows with ⟨changes, additions, rfl⟩
  induction changes generalizing graph with
  | nil => exact ⟨formed, Extends.refl graph⟩
  | cons change changes ih =>
    have step : (graph.change change).Formed ∧ graph.Extends (graph.change change) := by
      unfold Dataflow.change
      split
      · rename_i added later answer
        have addition := additions change List.mem_cons_self
        cases change with
        | addConstant value =>
          cases answer
          exact ⟨formed.addConstant value, extends_addConstant graph value⟩
        | addNode op inputs =>
          have adds := addNode_eq_ok answer
          exact ⟨formed.adds adds, adds.extend⟩
        | _ => exact addition.elim
      · exact ⟨formed, Extends.refl graph⟩
    rcases ih step.1 fun other member => additions other (List.mem_cons_of_mem _ member) with
      ⟨formed', extend⟩
    exact ⟨formed', step.2.trans extend⟩

theorem growsTo_addNodeSingle (op : Op α) (inputs : List VarId) :
    graph.GrowsTo (graph.addNodeSingle op inputs).2 := by
  refine ⟨[.addNode op inputs], by simp [Change.IsAddition], ?_⟩
  simp only [changeAll, List.foldl_cons, List.foldl_nil, change, Change.apply, addNodeSingle]
  cases graph.addNode op inputs <;> rfl

end Dataflow

namespace Edit

open Dataflow

variable {before after : Editing α} {pairs : List (VarId × VarId)} {count : Nat}
  {apply : NodeId → Edit α GraphError (Option (List VarId))} {rules : List (Rule α)}

/-- A graph whose nodes are all needed. -/
def Clean (editing : Editing α) : Prop := editing.graph.Formed ∧ editing.graph.Pruned

/-- A rule on nodes that does nothing to the graph but add to it. -/
def OnlyAdds (apply : NodeId → Edit α GraphError (Option (List VarId))) : Prop :=
  ∀ id before answer after, apply id before = .ok answer after → before.graph.GrowsTo after.graph

/-- A rule on nodes that has added no node if it offers only what is there. -/
def Tidy (apply : NodeId → Edit α GraphError (Option (List VarId))) : Prop :=
  ∀ id node before new after, before.graph.node? id = some node →
    apply id before = .ok (some new) after → replacements node.outputs new = [] →
      after.graph.nodes.size = before.graph.nodes.size

/-- Whether replacements are put in place, refused or rejected, what is not needed is removed. -/
theorem clean_commit (formed : before.graph.Formed) (nonempty : pairs ≠ [])
    (different : ∀ pair ∈ pairs, pair.1 ≠ pair.2) (ran : commit pairs before = .ok count after) :
    Clean after := by
  have cleaned : Clean { before with graph := before.graph.prune } := ⟨formed.prune, pruned_prune⟩
  rw [commit] at ran
  rcases replaceValidated_cases before pairs with
    ⟨changed, replaced, same⟩ | same | ⟨failure, same⟩
  · rw [same] at ran
    cases ran
    exact ⟨Checked.foldlM_invariant Formed (fun _ _ _ _ formed replaced => formed.replace replaced)
      formed replaced, pruned_of_replaceAll nonempty different replaced⟩
  · rw [same] at ran
    cases ran
    exact cleaned
  · rw [same] at ran
    cases failure with
    | error _ =>
      cases ran
      exact cleaned
    | fault broken => cases ran

/-- A rule on nodes leaves nothing behind, if it has added no node when it offers only what is there. -/
theorem clean_applyLocal {id : NodeId} (adds : OnlyAdds apply) (tidy : Tidy apply)
    (clean : Clean before) (ran : applyLocal apply id before = .ok count after) : Clean after := by
  rw [applyLocal, bind_of_ok (graph_run before)] at ran
  cases live : before.graph.node? id with
  | none =>
    rw [live] at ran
    cases ran
    exact clean
  | some node =>
    rw [live] at ran
    rcases bind_eq_ok_iff.mp ran with ⟨answer, middle, applied, ran⟩
    have applied := mapError_eq_ok_iff.mp applied
    rcases (adds id before answer middle applied).formed_extends clean.1 with ⟨formed, extend⟩
    cases answer with
    | none =>
      dsimp only at ran
      rw [bind_of_ok (graph_run middle)] at ran
      split at ran
      · rw [bind_of_ok (prune_run middle)] at ran
        cases ran
        exact ⟨formed.prune, pruned_prune⟩
      · rename_i size
        cases ran
        exact ⟨formed, clean.2.extend clean.1 extend (by simpa using size)⟩
    | some new =>
      dsimp only at ran
      split at ran
      · rename_i nothing
        -- Nothing is removed in this case, so nothing may have been added.
        have size := tidy id node before new middle live applied (by simpa using nothing)
        cases ran
        exact ⟨formed, clean.2.extend clean.1 extend size⟩
      · rename_i something
        exact clean_commit formed (by simpa using something)
          (fun pair member => (mem_replacements member).1) ran

theorem clean_sumOver {κ : Type} {items : List κ} {change : κ → Edit α OptimizeError Nat}
    (each : ∀ item ∈ items, ∀ before count after, Clean before →
      change item before = .ok count after → Clean after)
    (clean : Clean before) (ran : sumOver items change before = .ok count after) : Clean after := by
  refine foldlM_kept (fun _ state => Clean state) ?_ clean ran
  intro total item member state next final clean ran
  rcases bind_eq_ok_iff.mp ran with ⟨changed, middle, ran, counted⟩
  rw [← (pure_eq_ok_iff.mp counted).2]
  exact each item member state changed middle clean ran

/-- After an iteration over rules on nodes every node is needed, if it was so before and no rule adds
nodes and offers only what is there. -/
theorem pruned_of_iterate (formed : before.graph.Formed) (pruned : before.graph.Pruned)
    (onNodes : ∀ rule ∈ rules, ∃ apply, rule.action = .onNode apply ∧ OnlyAdds apply ∧ Tidy apply)
    (ran : iterate rules before = .ok count after) : after.graph.Pruned := by
  rw [iterate] at ran
  rcases bind_eq_ok_iff.mp ran with ⟨globals, middle, first, ran⟩
  have clean : Clean middle := by
    refine clean_sumOver (fun rule member _ _ _ clean ran => ?_) ⟨formed, pruned⟩ first
    rcases onNodes rule member with ⟨apply, action, _⟩
    rw [action] at ran
    cases ran
    exact clean
  split at ran
  · cases ran
    exact clean.2
  · rw [bind_of_ok (graph_run middle)] at ran
    rcases bind_eq_ok_iff.mp ran with ⟨order, between, ordered, ran⟩
    rcases ofChecked_eq_ok_iff.mp ordered with ⟨_, rfl⟩
    rcases bind_eq_ok_iff.mp ran with ⟨changed, final, scanned, counted⟩
    rw [← (pure_eq_ok_iff.mp counted).2]
    have clean' : Clean final := by
      refine clean_sumOver (fun id _ _ _ _ clean ran => ?_) clean scanned
      refine clean_sumOver (fun rule member _ _ _ clean ran => ?_) clean ran
      rcases onNodes rule (List.mem_of_mem_filter member) with ⟨apply, action, adds, tidy⟩
      rw [action] at ran
      exact clean_applyLocal adds tidy clean ran
    exact clean'.2

/-- A rule that adds a view of what a node computes before it answers. -/
def viewBeside (answer : List VarId → Option (List VarId)) (id : NodeId) :
    Edit α GraphError (Option (List VarId)) := do
  match (← graph).node? id with
  | some node =>
    let _ ← addNodeSingle .view node.outputs
    pure (answer node.outputs)
  | none => pure none

theorem viewBeside_eq_ok {answer : List VarId → Option (List VarId)} {id : NodeId}
    {value : Option (List VarId)} (ran : viewBeside answer id before = .ok value after) :
    before.graph.GrowsTo after.graph ∧ (value = none ∨ ∃ outputs, value = answer outputs) := by
  rw [viewBeside, bind_of_ok (graph_run before)] at ran
  cases live : before.graph.node? id with
  | none =>
    rw [live] at ran
    cases ran
    exact ⟨⟨[], by simp, rfl⟩, Or.inl rfl⟩
  | some node =>
    rw [live] at ran
    rcases bind_eq_ok_iff.mp ran with ⟨_, middle, added, ran⟩
    cases ran
    rw [addNodeSingle, bind_of_ok (graph_run before)] at added
    rcases bind_eq_ok_iff.mp added with ⟨_, between, placed, checked⟩
    rw [← (ofChecked_eq_ok_iff.mp checked).2]
    cases placed
    exact ⟨growsTo_addNodeSingle .view node.outputs, Or.inr ⟨_, rfl⟩⟩

end Edit

namespace Dataflow

/-- The captured graph with two variables and two places for nodes added to it. -/
def capturedExponentialWith (first second : Option (Node Float)) : Dataflow Float :=
  { capturedExponential with
    vars := capturedExponential.vars ++ #[⟨ArrayType.ofRank .float64 1, .output ⟨2⟩ 0, none⟩,
      ⟨ArrayType.ofRank .float64 1, .output ⟨3⟩ 0, none⟩]
    nodes := capturedExponential.nodes ++ #[first, second] }

theorem pruned_capturedExponential : capturedExponential.Pruned := by
  have same : capturedExponential.prune = capturedExponential := rfl
  exact same ▸ pruned_prune

end Dataflow

namespace Edit

open Dataflow

/-- The views are removed if the rule does not match. -/
theorem pruned_of_iterate_viewBeside :
    iterate [⟨"view_beside", .empty, .onNode (viewBeside fun _ => none)⟩]
        ⟨capturedExponential, ⟨#[], #[]⟩, []⟩ =
      .ok 0 ⟨capturedExponentialWith none none, ⟨#[], #[]⟩, []⟩ ∧
      (capturedExponentialWith none none).Pruned := by
  have ran : iterate [⟨"view_beside", .empty, .onNode (viewBeside fun _ => none)⟩]
      ⟨capturedExponential, ⟨#[], #[]⟩, []⟩ =
        .ok 0 ⟨capturedExponentialWith none none, ⟨#[], #[]⟩, []⟩ := by
    cbv
  refine ⟨ran, pruned_of_iterate (by decide) pruned_capturedExponential ?_ ran⟩
  intro rule member
  rw [List.mem_singleton.mp member]
  refine ⟨_, rfl, fun id before answer after ran => (viewBeside_eq_ok ran).1, ?_⟩
  intro id node before new after live ran
  rcases (viewBeside_eq_ok ran).2 with impossible | ⟨_, impossible⟩
  · cases impossible
  · cases impossible

/-- The views stay if the rule offers what the node computes already. -/
theorem not_pruned_of_iterate_viewBeside : capturedExponential.Formed ∧ capturedExponential.Pruned ∧
    OnlyAdds (viewBeside some : NodeId → Edit Float GraphError (Option (List VarId))) ∧
    ∃ after, iterate [⟨"view_beside", .empty, .onNode (viewBeside some)⟩]
        ⟨capturedExponential, ⟨#[], #[]⟩, []⟩ = .ok 0 after ∧ ¬after.graph.Pruned := by
  refine ⟨by decide, pruned_capturedExponential, fun id before answer after ran =>
    (viewBeside_eq_ok ran).1, ⟨capturedExponentialWith (some ⟨.view, [⟨1⟩], [⟨3⟩]⟩)
      (some ⟨.view, [⟨2⟩], [⟨4⟩]⟩), ⟨#[], #[]⟩, []⟩, by cbv, fun pruned => ?_⟩
  have needed := pruned ⟨2⟩ _ rfl
  revert needed
  decide

end Edit

end ArrayGraph
