import ArrayGraph.Optimize.Engine
import ArrayGraph.Proofs.Optimize.Serves

/-!
# Applying rules that are safe

A rule on graphs is safe if it leads from graphs that serve to graphs that serve. A rule on nodes is
safe if it only adds to the graph, and what it offers stands for what it is offered for; putting it in
place is then safe, and so is refusing it. Iterations, stages and whole optimizations are made of
these and of nothing else that touches the graph.
-/

namespace ArrayGraph

variable {α : Type} [Arithmetic α] {setting : Setting α}

/-- A graph under way that serves and has no node that nothing depends on. -/
structure Editing.Serves (editing : Editing α) (setting : Setting α) : Prop where
  graph : editing.graph.Serves setting editing.memory
  pruned : editing.graph.Pruned

omit [Arithmetic α] in
theorem Dataflow.replaceAll_singleton (graph : Dataflow α) (old new : VarId) :
    graph.replaceAll [(old, new)] = graph.replace old new := by
  simp [replaceAll]

namespace Edit

variable {ε δ β γ κ : Type} {before after : Editing α}

/-- A computation that leads from graphs that serve to graphs that serve. -/
def Safe (setting : Setting α) (edit : Edit α ε β) : Prop :=
  ∀ before value after, Editing.Serves before setting → edit before = .ok value after →
    Editing.Serves after setting

omit [Arithmetic α] in
@[simp]
theorem graph_run (before : Editing α) : (graph : Edit α ε _) before = .ok before.graph before := rfl

omit [Arithmetic α] in
@[simp]
theorem get_run (before : Editing α) :
    (get : Edit α ε (Editing α)) before = .ok before before := rfl

omit [Arithmetic α] in
@[simp]
theorem setGraph_run (changed : Dataflow α) (before : Editing α) :
    (setGraph changed : Edit α ε Unit) before = .ok () { before with graph := changed } := rfl

omit [Arithmetic α] in
@[simp]
theorem prune_run (before : Editing α) :
    (prune : Edit α ε Unit) before = .ok () { before with graph := before.graph.prune } := rfl

omit [Arithmetic α] in
@[simp]
theorem log_run (level : LogLevel) (text : String) (before : Editing α) :
    (log level text : Edit α ε Unit) before =
      .ok () { before with log := before.log ++ [⟨level, text⟩] } := rfl

omit [Arithmetic α] in
@[simp]
theorem ofChecked_eq_ok_iff {computation : Checked ε β} {value : β} :
    (ofChecked computation : Edit α ε β) before = .ok value after ↔
      computation = Except.ok value ∧ before = after := by
  cases computation <;> simp [ofChecked]

omit [Arithmetic α] in
@[simp]
theorem mapError_eq_ok_iff {f : ε → δ} {edit : Edit α ε β} {value : β} :
    edit.mapError f before = .ok value after ↔ edit before = .ok value after := by
  simp only [mapError]
  cases edit before <;> simp

section Safe

theorem safe_of_unchanged {edit : Edit α ε β} (unchanged : ∀ before value after,
    edit before = .ok value after → after.graph = before.graph ∧ after.memory = before.memory) :
    Safe setting edit := by
  intro before value after serves ran
  rcases unchanged before value after ran with ⟨graph, memory⟩
  refine ⟨?_, ?_⟩
  · rw [graph, memory]
    exact serves.graph
  · rw [graph]
    exact serves.pruned

theorem safe_pure (value : β) : Safe setting (pure value : Edit α ε β) := by
  apply safe_of_unchanged
  intro before value after ran
  simp only [pure_eq_ok_iff] at ran
  simp [ran.2]

theorem Safe.bind {edit : Edit α ε β} {next : β → Edit α ε γ} (first : Safe setting edit)
    (second : ∀ value, Safe setting (next value)) : Safe setting (edit >>= next) := by
  intro before value after serves ran
  rcases bind_eq_ok_iff.mp ran with ⟨result, middle, ran, ran'⟩
  exact second result middle value after (first before result middle serves ran) ran'

theorem Safe.mapError {edit : Edit α ε β} (safe : Safe setting edit) (f : ε → δ) :
    Safe setting (edit.mapError f) := by
  intro before value after serves ran
  exact safe before value after serves (mapError_eq_ok_iff.mp ran)

theorem safe_ofChecked (computation : Checked ε β) :
    Safe setting (ofChecked computation : Edit α ε β) := by
  apply safe_of_unchanged
  intro before value after ran
  simp only [ofChecked_eq_ok_iff] at ran
  simp [ran.2]

theorem safe_graph : Safe setting (graph : Edit α ε _) := by
  apply safe_of_unchanged
  intro before value after ran
  simp only [graph_run, EStateM.Result.ok.injEq] at ran
  simp [ran.2]

theorem safe_foldlM {items : List κ} {round : β → κ → Edit α ε β}
    (each : ∀ total, ∀ item ∈ items, Safe setting (round total item)) (start : β) :
    Safe setting (items.foldlM round start) := by
  intro before value after serves ran
  refine foldlM_kept (fun _ state => Editing.Serves state setting) ?_ serves ran
  intro total item member state next final serves ran
  exact each total item member state next final serves ran

end Safe

/-- What a validated replacement can come to. -/
theorem replaceValidated_cases (before : Editing α) (pairs : List (VarId × VarId)) :
    (∃ changed, before.graph.replaceAll pairs = Except.ok changed ∧
      replaceValidated pairs before = .ok true { before with graph := changed }) ∨
    replaceValidated pairs before = .ok false before ∨
    ∃ failure, replaceValidated pairs before = .error failure before := by
  cases replaced : before.graph.replaceAll pairs with
  | error failure =>
    right
    right
    refine ⟨failure, ?_⟩
    simp only [replaceValidated]
    apply (bind_of_ok (graph_run before)).trans
    rw [replaced]
    rfl
  | ok changed =>
    have replacing : (ofChecked (before.graph.replaceAll pairs) : Edit α GraphError _) before =
        .ok changed before := by
      rw [replaced]
      rfl
    unfold replaceValidated
    rw [bind_of_ok (graph_run before), bind_of_ok replacing]
    split
    · cases changed.validate with
      | ok _ => exact Or.inl ⟨changed, rfl, rfl⟩
      | error failure =>
        cases failure with
        | error _ => exact Or.inr (Or.inl rfl)
        | fault broken => exact Or.inr (Or.inr ⟨_, rfl⟩)
    · exact Or.inl ⟨changed, rfl, rfl⟩

theorem replaceValidated_eq_ok {pairs : List (VarId × VarId)} {answer : Bool}
    (ran : replaceValidated pairs before = .ok answer after) :
    after = before ∨ ∃ changed, before.graph.replaceAll pairs = Except.ok changed ∧
      after = { before with graph := changed } := by
  rcases replaceValidated_cases before pairs with
    ⟨changed, replaced, same⟩ | same | ⟨failure, same⟩
  · rw [same] at ran
    cases ran
    exact Or.inr ⟨changed, replaced, rfl⟩
  · rw [same] at ran
    cases ran
    exact Or.inl rfl
  · rw [same] at ran
    cases ran

/-- Whatever comes of a replacement by something that stands for the same, the graph serves, and what
was added for nothing is removed. -/
theorem commit_serves {old new : VarId} (graph : before.graph.Serves setting before.memory)
    (different : old ≠ new)
    (stands : Dataflow.Serves.Stands before.graph setting before.memory old new) {count : Nat}
    (ran : commit [(old, new)] before = .ok count after) : Editing.Serves after setting := by
  have cleaned : Editing.Serves { before with graph := before.graph.prune } setting :=
    ⟨graph.prune, Dataflow.pruned_prune⟩
  simp only [commit] at ran
  rcases replaceValidated_cases before [(old, new)] with
    ⟨changed, replaced, same⟩ | same | ⟨failure, same⟩
  · rw [same] at ran
    cases ran
    rw [Dataflow.replaceAll_singleton] at replaced
    refine ⟨graph.replace (fun _ => stands) replaced, ?_⟩
    rcases Dataflow.replace_eq_ok replaced with ⟨equal, _⟩ | ⟨_, _, rfl⟩
    · exact absurd equal different
    · exact Dataflow.pruned_prune
  · rw [same] at ran
    cases ran
    exact cleaned
  · rw [same] at ran
    cases failure with
    | error _ =>
      cases ran
      exact cleaned
    | fault broken => cases ran

/-- What a rule on nodes may do: it adds to the graph, and may offer a variable in the place of the
node's only output. -/
structure Offers (setting : Setting α) (node : Node α) (before : Editing α)
    (answer : Option (List VarId)) (after : Editing α) : Prop where
  serves : after.graph.Serves setting after.memory
  extend : before.graph.Extends after.graph
  offer : ∀ new, answer = some new → ∃ output replacement, node.outputs = [output] ∧
    new = [replacement] ∧
    Dataflow.Serves.Stands after.graph setting after.memory output replacement ∧
    (output = replacement → after.graph.nodes.size = before.graph.nodes.size)

/-- A rule on nodes that only does what it may. -/
def SafeOnNodes (setting : Setting α) (apply : NodeId → Edit α GraphError (Option (List VarId))) :
    Prop :=
  ∀ id node before answer after, Editing.Serves before setting → before.graph.node? id = some node →
    apply id before = .ok answer after → Offers setting node before answer after

theorem safe_applyLocal {apply : NodeId → Edit α GraphError (Option (List VarId))}
    (safe : SafeOnNodes setting apply) (id : NodeId) : Safe setting (applyLocal apply id) := by
  intro before count after serves ran
  rw [applyLocal, bind_of_ok (graph_run before)] at ran
  cases live : before.graph.node? id with
  | none =>
    rw [live] at ran
    cases ran
    exact serves
  | some node =>
    rw [live] at ran
    rcases bind_eq_ok_iff.mp ran with ⟨answer, middle, ran, ran'⟩
    have offers := safe id node before answer middle serves live (mapError_eq_ok_iff.mp ran)
    have kept : middle.graph.nodes.size = before.graph.nodes.size →
        Editing.Serves middle setting := by
      intro size
      exact ⟨offers.serves, serves.pruned.extend serves.graph.toFormed offers.extend size⟩
    cases answer with
    | none =>
      dsimp only at ran'
      rw [bind_of_ok (graph_run middle)] at ran'
      split at ran'
      · rw [bind_of_ok (prune_run middle)] at ran'
        cases ran'
        exact ⟨offers.serves.prune, Dataflow.pruned_prune⟩
      · rename_i size
        cases ran'
        exact kept (by simpa using size)
    | some new =>
      rcases offers.offer new rfl with ⟨output, replacement, outputs, rfl, stands, trivial⟩
      by_cases same : output = replacement
      · have none : replacements node.outputs [replacement] = [] := by
          simp [replacements, outputs, same]
        simp only [none, List.isEmpty_nil, if_true, pure_eq_ok_iff] at ran'
        rcases ran' with ⟨_, rfl⟩
        exact kept (trivial same)
      · have single : replacements node.outputs [replacement] = [(output, replacement)] := by
          simp [replacements, outputs, same]
        simp only [single, List.isEmpty_cons, Bool.false_eq_true, if_false] at ran'
        exact commit_serves offers.serves same stands ran'

theorem safe_sumOver {items : List κ} {change : κ → Edit α OptimizeError Nat}
    (each : ∀ item ∈ items, Safe setting (change item)) : Safe setting (sumOver items change) := by
  apply safe_foldlM
  intro total item member
  exact (each item member).bind fun count => safe_pure _

end Edit

/-- A rule that is safe to apply. -/
def Rule.Safe (setting : Setting α) (rule : Rule α) : Prop :=
  match rule.action with
  | .onNode apply => Edit.SafeOnNodes setting apply
  | .onGraph apply => Edit.Safe setting apply

namespace Edit

variable {rules : List (Rule α)}

theorem safe_iterate (safe : ∀ rule ∈ rules, rule.Safe setting) : Safe setting (iterate rules) := by
  simp only [iterate]
  refine Safe.bind (safe_sumOver fun rule member => ?_) fun count => ?_
  · have ruleSafe := safe rule member
    simp only [Rule.Safe] at ruleSafe
    cases action : rule.action with
    | onNode apply => exact safe_pure 0
    | onGraph apply =>
      rw [action] at ruleSafe
      refine ruleSafe.bind fun changed => ?_
      split <;> exact safe_pure _
  split
  · exact safe_pure count
  · refine safe_graph.bind fun current => (safe_ofChecked _).bind fun order => ?_
    refine Safe.bind (safe_sumOver fun id _ => safe_sumOver fun rule member => ?_) fun changed =>
      safe_pure _
    have ruleSafe := safe rule (List.mem_of_mem_filter member)
    simp only [Rule.Safe] at ruleSafe
    cases action : rule.action with
    | onNode apply =>
      rw [action] at ruleSafe
      exact safe_applyLocal ruleSafe id
    | onGraph apply => exact safe_pure 0

theorem safe_repeatRules (safe : ∀ rule ∈ rules, rule.Safe setting) (left iterations applied : Nat) :
    Safe setting (repeatRules rules left iterations applied) := by
  induction left generalizing iterations applied with
  | zero => exact safe_pure _
  | succ left ih =>
    simp only [repeatRules]
    refine (safe_iterate safe).bind fun count => ?_
    split
    · exact safe_pure _
    · exact ih _ _

theorem safe_checkValid : Safe setting (checkValid : Edit α OptimizeError Orderings) :=
  safe_graph.bind fun _ => safe_ofChecked _

theorem safe_log (level : LogLevel) (text : String) :
    Safe setting (log level text : Edit α ε Unit) := by
  apply safe_of_unchanged
  intro before value after ran
  simp only [log_run, EStateM.Result.ok.injEq] at ran
  simp [← ran.2]

theorem safe_logAll (level : LogLevel) (texts : List String) :
    Safe setting (forIn texts PUnit.unit fun text _ => do
      log level text
      pure (ForInStep.yield PUnit.unit) : Edit α ε PUnit) := by
  induction texts with
  | nil => exact safe_pure _
  | cons text rest ih =>
    simp only [List.forIn_cons, bind_assoc, pure_bind]
    exact (safe_log level text).bind fun _ => ih

theorem safe_runStage (safe : ∀ rule ∈ rules, rule.Safe setting) (budget : Option Nat)
    (report : OptimizeReport) (stage : Stage α) :
    Safe setting (runStage budget report stage rules) := by
  simp only [runStage]
  refine (safe_repeatRules safe _ 0 0).bind fun outcome => ?_
  refine (safe_logAll _ _).bind fun _ => ?_
  split
  · refine Safe.bind ?_ fun _ => safe_pure _
    simp only [discard, Functor.discard, Functor.mapConst]
    exact safe_checkValid.bind fun _ => safe_pure _
  · exact safe_pure _

/-- An optimization that selects safe rules only keeps every job of its base graph. -/
theorem safe_optimize {database : Database α} {query : Query}
    (safe : ∀ entry ∈ database.select query, ∀ rule ∈ entry.2, rule.Safe setting)
    (budget : Option Nat) : Safe setting (optimize database query budget) := by
  simp only [optimize]
  refine Safe.bind (safe_foldlM (fun report entry member => ?_) _) fun report =>
    safe_checkValid.bind fun orderings => safe_pure _
  exact safe_runStage (safe entry member) budget report entry.1

theorem checkValid_of_validate {orderings : Orderings}
    (validated : before.graph.validate = Except.ok orderings) :
    (checkValid : Edit α OptimizeError Orderings) before = .ok orderings before := by
  refine (bind_of_ok (graph_run before)).trans ?_
  rw [validated]
  rfl

theorem checkValid_eq_ok_iff {after : Editing α} {orderings : Orderings} :
    (checkValid : Edit α OptimizeError Orderings) before = .ok orderings after ↔
      before.graph.validate = Except.ok orderings ∧ before = after := by
  constructor
  · intro ran
    cases validated : before.graph.validate with
    | ok known =>
      rw [checkValid_of_validate validated] at ran
      cases ran
      exact ⟨rfl, rfl⟩
    | error failure =>
      simp [checkValid, bind_eq_ok_iff, graph_run, ofChecked_eq_ok_iff, validated,
        Checked.mapError] at ran
  · rintro ⟨validated, rfl⟩
    exact checkValid_of_validate validated

/-- A graph that has been optimized is valid. -/
theorem validate_of_optimize {database : Database α} {query : Query} {budget : Option Nat}
    {after : Editing α} {report : OptimizeReport} {orderings : Orderings}
    (ran : optimize database query budget before = .ok (report, orderings) after) :
    after.graph.validate = Except.ok orderings := by
  simp only [optimize, bind_eq_ok_iff, checkValid_eq_ok_iff, pure_eq_ok_iff] at ran
  rcases ran with ⟨_, _, _, _, _, ⟨validated, rfl⟩, same, rfl⟩
  cases same
  exact validated

omit [Arithmetic α] in
theorem select_none (database : Database α) : database.select Query.none = [] := by
  apply List.filterMap_eq_nil_iff.mpr
  intro stage _
  have unselected : stage.rules.filter Query.none.selects = [] := by
    simp [Query.selects, Query.none, TagSet.meets, TagSet.contains, TagSet.empty]
  rw [unselected]

/-- A valid graph stays as it is if no rule is selected. -/
theorem optimize_none {database : Database α} {budget : Option Nat} {editing : Editing α}
    {orderings : Orderings} (validated : editing.graph.validate = Except.ok orderings) :
    optimize database Query.none budget editing = .ok (⟨[], []⟩, orderings) editing := by
  unfold optimize
  rw [select_none]
  refine (bind_of_ok rfl).trans ?_
  exact (bind_of_ok (checkValid_of_validate validated)).trans rfl

end Edit

end ArrayGraph
