import ArrayGraph.Proofs.Alias.Valid
import ArrayGraph.Proofs.Dataflow.Invariant
import ArrayGraph.Proofs.Optimize.Merge

/-!
# Optimizing a graph that is ready

A graph is ready if it is well formed and valid and all its nodes are needed. Rules that add nodes
leave this state for a while, but whether what they offer is put in place, refused by the graph or
refused by the analysis, the graph is ready again afterwards. So a stage made of rules that do not
fail themselves does not fail either, and it leaves a valid graph after every iteration.
-/

namespace ArrayGraph

open Relation

variable {α : Type} [Arithmetic α]

namespace Dataflow

variable {graph extended changed : Dataflow α} {old new : VarId} {pairs : List (VarId × VarId)}

/-- A graph that rules can be applied to. -/
structure Ready (graph : Dataflow α) : Prop where
  formed : graph.Formed
  pruned : graph.Pruned
  valid : graph.Valid

theorem Ready.acyclic (ready : graph.Ready) : graph.Acyclic :=
  ready.formed.acyclic_of_valid ready.valid

theorem Ready.orderly (ready : graph.Ready) : graph.Orderly := ⟨ready.formed, ready.acyclic⟩

omit [Arithmetic α] in
theorem Acyclic.exists_order (acyclic : graph.Acyclic) :
    ∃ order, graph.order Orderings.empty = Except.ok order := by
  apply Dataflow.exists_order
  · simp [Orderings.before, Orderings.empty]
  · intro id cycle
    apply acyclic id
    refine TransGen.mono ?_ id id cycle
    intro later earlier needed
    simpa [Orderings.before, Orderings.empty] using mem_dependencies.mp needed

omit [Arithmetic α] in
theorem Pruned.prune_eq (pruned : graph.Pruned) : graph.prune = graph := by
  have same : graph.prune.nodes = graph.nodes := by
    apply Array.ext_getElem?
    intro index
    simp only [Dataflow.prune, Array.getElem?_mapIdx]
    cases place : graph.nodes[index]? with
    | none => rfl
    | some content =>
      cases content with
      | none => simp
      | some node =>
        have live : graph.node? ⟨index⟩ = some node := by simp [node?, place]
        simp [pruned ⟨index⟩ node live]
  simp only [Dataflow.prune] at same ⊢
  rw [same]

/-- What was added without being read goes away, and what was there is as it was. -/
theorem Ready.prune_extend (ready : graph.Ready) (extend : graph.Extends extended)
    (orderly : extended.Orderly) : extended.prune.Ready where
  formed := orderly.formed.prune
  pruned := pruned_prune
  valid := (ready.pruned.resembles_extend ready.formed ready.acyclic extend orderly.acyclic).valid
    ready.formed.toWellFormed orderly.formed.prune.toWellFormed ready.valid

/-- Further variables alone make no difference. -/
theorem Ready.extend (ready : graph.Ready) (extend : graph.Extends extended)
    (orderly : extended.Orderly) (size : extended.nodes.size = graph.nodes.size) :
    extended.Ready := by
  have pruned := ready.pruned.extend ready.formed extend size
  rw [← pruned.prune_eq]
  exact ready.prune_extend extend orderly

section Replace

omit [Arithmetic α] in
theorem faultless_replace (known : old.index < graph.vars.size) (known' : new.index < graph.vars.size) :
    Checked.Faultless (graph.replace old new) := by
  have checked : Checked.Faultless (graph.checkReplacement old new) := by
    unfold checkReplacement
    simp only [requireVar_eq_ok.mpr known, requireVar_eq_ok.mpr known', Checked.ok_bind]
    repeat' split
    all_goals first
      | exact Checked.faultless_ok _
      | exact Checked.faultless_raise _
  unfold Dataflow.replace
  split
  · exact Checked.faultless_ok _
  · exact checked.bind fun _ _ => Checked.faultless_ok _

omit [Arithmetic α] in
theorem faultless_replaceAll (known : ∀ pair ∈ pairs, pair.1.index < graph.vars.size ∧
    pair.2.index < graph.vars.size) : Checked.Faultless (graph.replaceAll pairs) := by
  induction pairs generalizing graph with
  | nil => exact Checked.faultless_ok graph
  | cons pair rest ih =>
    have here := known pair List.mem_cons_self
    refine (faultless_replace here.1 here.2).bind fun middle answer => ih ?_
    rw [vars_replace answer]
    exact fun other member => known other (List.mem_cons_of_mem _ member)

omit [Arithmetic α] in
theorem not_hasDestroyers_replace (free : graph.hasDestroyers = false)
    (answer : graph.replace old new = Except.ok changed) : changed.hasDestroyers = false := by
  rw [hasDestroyers_eq_false_iff] at free ⊢
  rcases replace_eq_ok answer with ⟨_, rfl⟩ | ⟨_, _, rfl⟩
  · exact free
  · intro id node live
    rcases node?_redirect_eq_some.mp (node?_prune.mp live).1 with ⟨original, originalLive, rfl⟩
    exact free id original originalLive

omit [Arithmetic α] in
theorem not_hasDestroyers_replaceAll (free : graph.hasDestroyers = false)
    (answer : graph.replaceAll pairs = Except.ok changed) : changed.hasDestroyers = false :=
  Checked.foldlM_invariant (fun current : Dataflow α => current.hasDestroyers = false)
    (fun _ _ _ _ free answer => not_hasDestroyers_replace free answer) free answer

omit [Arithmetic α] in
/-- The last of several replacements removes what none of them needs. -/
theorem pruned_of_replaceAll (nonempty : pairs ≠ []) (different : ∀ pair ∈ pairs, pair.1 ≠ pair.2)
    (answer : graph.replaceAll pairs = Except.ok changed) : changed.Pruned := by
  induction pairs generalizing graph with
  | nil => exact absurd rfl nonempty
  | cons pair rest ih =>
    rw [replaceAll, List.foldlM_cons, Checked.bind_eq_ok_iff] at answer
    rcases answer with ⟨middle, replaced, answer⟩
    cases rest with
    | nil =>
      cases answer
      rcases replace_eq_ok replaced with ⟨same, _⟩ | ⟨_, _, rfl⟩
      · exact absurd same (different pair List.mem_cons_self)
      · exact pruned_prune
    | cons other rest =>
      exact ih (by simp) (fun pair member => different pair (List.mem_cons_of_mem _ member)) answer

omit [Arithmetic α] in
theorem Pruned.replaceAll (pruned : graph.Pruned) (answer : graph.replaceAll pairs = Except.ok changed) :
    changed.Pruned :=
  Checked.foldlM_invariant Pruned (fun _ _ _ _ pruned answer => pruned.replace answer) pruned answer

end Replace

end Dataflow

namespace Edit

open Dataflow

variable {ε δ β γ κ : Type} {before after : Editing α} {pairs : List (VarId × VarId)}

/-- A computation that succeeds on every graph that is ready, and leaves such a graph. -/
def Total (edit : Edit α ε β) : Prop := ∀ before : Editing α, before.graph.Ready →
  Ends edit before (fun _ after => after.graph.Ready) fun _ => False

theorem total_pure (value : β) : Total (pure value : Edit α ε β) := fun _ ready => Ends.pure ready

theorem Total.bind {edit : Edit α ε β} {next : β → Edit α ε γ} (first : Total edit)
    (second : ∀ value, Total (next value)) : Total (edit >>= next) :=
  fun before ready => (first before ready).bind fun value after ready => second value after ready

omit [Arithmetic α] in
theorem mapError_ends {edit : Edit α ε β} {good : β → Editing α → Prop} {bad : Editing α → Prop}
    (ends : Ends edit before good bad) (f : ε → δ) : Ends (edit.mapError f) before good bad := by
  unfold Ends Edit.mapError
  cases ran : edit before with
  | ok value middle => exact ends.of_ok ran
  | error failure middle => exact ends.of_error ran

theorem total_foldlM {items : List κ} {round : β → κ → Edit α ε β}
    (each : ∀ total, ∀ item ∈ items, Total (round total item)) (start : β) :
    Total (items.foldlM round start) := by
  intro before ready
  refine Ends.foldlM (fun _ _ (state : Editing α) => state.graph.Ready) ready ?_
  intro done item rest total state split ready
  exact each total item (by simp [split]) state ready

theorem total_sumOver {items : List κ} {change : κ → Edit α OptimizeError Nat}
    (each : ∀ item ∈ items, Total (change item)) : Total (sumOver items change) := by
  apply total_foldlM
  intro total item member
  exact (each item member).bind fun count => total_pure _

theorem total_log (level : LogLevel) (text : String) : Total (log level text : Edit α ε Unit) :=
  fun _ ready => ready

section Replace

/-- Replacements that the graph allows are put in place unless the analysis refuses them. -/
theorem replaceValidated_of_ok {changed : Dataflow α} (orderly : before.graph.Orderly)
    (replaced : before.graph.replaceAll pairs = Except.ok changed) :
    (changed.Valid ∧ replaceValidated pairs before = .ok true { before with graph := changed }) ∨
      replaceValidated pairs before = .ok false before := by
  have replacing : (ofChecked (before.graph.replaceAll pairs) : Edit α GraphError _) before =
      .ok changed before := ofChecked_eq_ok_iff.mpr ⟨replaced, rfl⟩
  unfold replaceValidated
  rw [bind_of_ok (graph_run before), bind_of_ok replacing]
  cases destroyers : before.graph.hasDestroyers with
  | true =>
    cases validated : changed.validate with
    | ok orderings => exact Or.inl ⟨⟨orderings, validated⟩, rfl⟩
    | error failure =>
      cases failure with
      | error cause => exact Or.inr rfl
      | fault broken => exact absurd validated (faultless_validate changed broken)
  | false =>
    have orderly' := (orderly.replaceAll replaced).1
    refine Or.inl ⟨?_, rfl⟩
    exact orderly'.formed.valid_of_not_hasDestroyers orderly'.acyclic
      (not_hasDestroyers_replaceAll destroyers replaced)

/-- Replacements that the graph allows leave it ready. -/
theorem replaceValidated_ends {changed : Dataflow α} (ready : before.graph.Ready)
    (replaced : before.graph.replaceAll pairs = Except.ok changed) :
    Ends (replaceValidated pairs) before (fun answer after => after.graph.Ready ∧
      (answer = true ∧ after = { before with graph := changed } ∨ answer = false ∧ after = before))
      fun _ => False := by
  unfold Ends
  rcases replaceValidated_of_ok ready.orderly replaced with ⟨valid, ran⟩ | ran
  · rw [ran]
    refine ⟨⟨(ready.orderly.replaceAll replaced).1.formed, ?_, valid⟩, Or.inl ⟨rfl, rfl⟩⟩
    exact ready.pruned.replaceAll replaced
  · rw [ran]
    exact ⟨ready, Or.inr ⟨rfl, rfl⟩⟩

/-- Whatever comes of replacements in a graph that was added to, it is ready again. -/
theorem commit_ends {base : Dataflow α} (ready : base.Ready) (extend : base.Extends before.graph)
    (orderly : before.graph.Orderly) (nonempty : pairs ≠ [])
    (different : ∀ pair ∈ pairs, pair.1 ≠ pair.2)
    (known : ∀ pair ∈ pairs, pair.1.index < before.graph.vars.size ∧
      pair.2.index < before.graph.vars.size) :
    Ends (commit pairs) before (fun _ after => after.graph.Ready) fun _ => False := by
  have cleaned := ready.prune_extend extend orderly
  unfold Ends commit
  cases replaced : before.graph.replaceAll pairs with
  | ok changed =>
    rcases replaceValidated_of_ok orderly replaced with ⟨valid, ran⟩ | ran
    · rw [ran]
      refine ⟨(orderly.replaceAll replaced).1.formed, ?_, valid⟩
      exact pruned_of_replaceAll nonempty different replaced
    · rw [ran]
      exact cleaned
  | error failure =>
    have ran : replaceValidated pairs before = .error failure before := by
      unfold replaceValidated
      rw [bind_of_ok (graph_run before), replaced]
      rfl
    rw [ran]
    cases failure with
    | error cause => exact cleaned
    | fault broken => exact faultless_replaceAll known broken replaced

end Replace

/-- What a rule on nodes may do to a graph that is ready: it adds to it and offers variables of it,
and it has added no node if it offers only what is there. -/
structure Proposes (node : Node α) (before after : Dataflow α) (answer : Option (List VarId)) :
    Prop where
  extend : before.Extends after
  orderly : after.Orderly
  known : ∀ new, answer = some new → ∀ var ∈ new, var.index < after.vars.size
  idle : ∀ new, answer = some new → replacements node.outputs new = [] →
    after.nodes.size = before.nodes.size

/-- A rule on nodes that always does what it may. -/
def TotalOnNodes (apply : NodeId → Edit α GraphError (Option (List VarId))) : Prop :=
  ∀ id node before, before.graph.Ready → before.graph.node? id = some node →
    Ends (apply id) before (fun answer after => Proposes node before.graph after.graph answer)
      fun _ => False

theorem mem_replacements {outputs new : List VarId} {pair : VarId × VarId}
    (member : pair ∈ replacements outputs new) :
    pair.1 ≠ pair.2 ∧ pair.1 ∈ outputs ∧ pair.2 ∈ new := by
  rcases List.mem_filter.mp member with ⟨paired, different⟩
  exact ⟨by simpa using different, List.of_mem_zip paired⟩

theorem total_applyLocal {apply : NodeId → Edit α GraphError (Option (List VarId))}
    (total : TotalOnNodes apply) (id : NodeId) : Total (applyLocal apply id) := by
  intro before ready
  refine Ends.after (graph_run before) ?_
  cases live : before.graph.node? id with
  | none => exact Ends.pure ready
  | some node =>
    refine (mapError_ends (total id node before ready live) OptimizeError.graph).bind ?_
    intro answer middle proposes
    have kept : middle.graph.nodes.size = before.graph.nodes.size → middle.graph.Ready :=
      ready.extend proposes.extend proposes.orderly
    cases answer with
    | none =>
      refine Ends.after (graph_run middle) ?_
      split
      · exact Ends.after (prune_run middle)
          (Ends.pure (ready.prune_extend proposes.extend proposes.orderly))
      · rename_i size
        exact Ends.pure (kept (by simpa using size))
    | some new =>
      dsimp only
      split
      · rename_i none
        exact Ends.pure (kept (proposes.idle new rfl (by simpa using none)))
      · rename_i some
        refine commit_ends ready proposes.extend proposes.orderly (by simpa using some)
          (fun pair member => (mem_replacements member).1) ?_
        intro pair member
        rcases mem_replacements member with ⟨_, output, offered⟩
        rcases List.mem_iff_getElem?.mp output with ⟨index, found⟩
        have outputKnown := (ready.formed.output_known id node live index pair.1 found).1
        exact ⟨Nat.lt_of_lt_of_le outputKnown proposes.extend.vars_size,
          proposes.known new rfl pair.2 offered⟩

end Edit

/-- A rule that can always be applied. -/
def Rule.Total (rule : Rule α) : Prop :=
  match rule.action with
  | .onNode apply => Edit.TotalOnNodes apply
  | .onGraph apply => Edit.Total apply

namespace Edit

open Dataflow

variable {rules : List (Rule α)} {before after : Editing α}

theorem total_iterate (total : ∀ rule ∈ rules, rule.Total) : Total (iterate rules) := by
  simp only [iterate]
  refine Total.bind (total_sumOver fun rule member => ?_) fun count => ?_
  · have ruleTotal := total rule member
    simp only [Rule.Total] at ruleTotal
    cases action : rule.action with
    | onNode apply => exact total_pure 0
    | onGraph apply =>
      rw [action] at ruleTotal
      refine ruleTotal.bind fun changed => ?_
      split <;> exact total_pure _
  split
  · exact total_pure count
  · intro before ready
    rcases ready.acyclic.exists_order with ⟨order, ordered⟩
    refine Ends.after (graph_run before) ?_
    refine Ends.after (ofChecked_eq_ok_iff.mpr ⟨by rw [ordered]; rfl, rfl⟩) ?_
    refine Total.bind (total_sumOver fun id _ => total_sumOver fun rule member => ?_)
      (fun changed => total_pure _) before ready
    have ruleTotal := total rule (List.mem_of_mem_filter member)
    simp only [Rule.Total] at ruleTotal
    cases action : rule.action with
    | onNode apply =>
      rw [action] at ruleTotal
      exact total_applyLocal ruleTotal id
    | onGraph apply => exact total_pure 0

theorem total_repeatRules (total : ∀ rule ∈ rules, rule.Total) (left iterations applied : Nat) :
    Total (repeatRules rules left iterations applied) := by
  induction left generalizing iterations applied with
  | zero => exact total_pure _
  | succ left ih =>
    simp only [repeatRules]
    refine (total_iterate total).bind fun count => ?_
    split
    · exact total_pure _
    · exact ih _ _

theorem total_checkValid : Total (checkValid : Edit α OptimizeError Orderings) := by
  intro before ready
  rcases ready.valid with ⟨orderings, validated⟩
  unfold Ends
  rw [checkValid_of_validate validated]
  exact ready

theorem total_logAll (level : LogLevel) (texts : List String) :
    Total (forIn texts PUnit.unit fun text _ => do
      log level text
      pure (ForInStep.yield PUnit.unit) : Edit α OptimizeError PUnit) := by
  induction texts with
  | nil => exact total_pure _
  | cons text rest ih =>
    simp only [List.forIn_cons, bind_assoc, pure_bind]
    exact (total_log level text).bind fun _ => ih

theorem total_runStage (total : ∀ rule ∈ rules, rule.Total) (budget : Option Nat)
    (report : OptimizeReport) (stage : Stage α) : Total (runStage budget report stage rules) := by
  simp only [runStage]
  refine (total_repeatRules total _ 0 0).bind fun outcome => ?_
  refine (total_logAll _ _).bind fun _ => ?_
  split
  · refine Total.bind ?_ fun _ => total_pure _
    simp only [discard, Functor.discard, Functor.mapConst]
    exact total_checkValid.bind fun _ => total_pure _
  · exact total_pure _

end Edit

end ArrayGraph
