import ArrayGraph.Proofs.Optimize.Applies
import ArrayGraph.Proofs.Optimize.InPlace
import ArrayGraph.Proofs.Optimize.Standard

/-!
# Rules on graphs that always apply

The standard rules on whole graphs do not fail on graphs that are ready. Merging two nodes cannot make
a cycle: the two read the same variables, so the duplicate is computed from whatever the survivor is
computed from, and none of that reads the duplicate. Nor can types disagree, whichever of the
duplicate's outputs have been replaced already. A node is made destructive only after its destructive
form has been tried.
-/

namespace ArrayGraph

open Relation

variable {α : Type} [Arithmetic α]

namespace Op

/-- Operations that count as the same one infer the same types. -/
theorem inferTypes_of_beq {first second : Op α} (same : first == second) {types outputs : List ArrayType}
    (inferred : first.inferTypes types = Except.ok outputs) :
    second.inferTypes types = Except.ok outputs := by
  change first.beq second = true at same
  have arity := arity_of_inferTypes inferred
  cases first with
  | fill x =>
    cases second with
    | fill y =>
      rcases List.length_eq_one_iff.mp arity with ⟨type, rfl⟩
      exact inferred
    | _ => cases same
  | host function =>
    cases second with
    | host other =>
      simp only [beq, Bool.and_eq_true, decide_eq_true_eq] at same
      rcases same with ⟨⟨⟨name, inputs⟩, outputs⟩, _⟩
      simp only [inferTypes, Op.arity, Op.name, name, inputs, outputs] at inferred ⊢
      exact inferred
    | _ => cases same
  | _ =>
    cases second <;> first
      | cases same; done
      | exact inferred
      | (simp only [beq, Bool.and_eq_true, decide_eq_true_eq] at same; simpa [same] using inferred)

end Op

namespace Dataflow

variable {graph after : Dataflow α} {old new : VarId}

omit [Arithmetic α] in
theorem exists_replace (checked : graph.checkReplacement old new = Except.ok ()) :
    ∃ after, graph.replace old new = Except.ok after := by
  unfold Dataflow.replace
  split
  · exact ⟨_, rfl⟩
  · rw [checked]
    exact ⟨_, rfl⟩

/-- A constant can be put in the place of another one of its type. -/
theorem Formed.exists_replace_constant {first second : Value} (formed : graph.Formed)
    (kind : (graph.var old).kind = .constant first) (kind' : (graph.var new).kind = .constant second)
    (types : graph.type old = graph.type new) : ∃ after, graph.replace old new = Except.ok after := by
  apply Dataflow.exists_replace
  refine checkReplacement_of_apart (known_of_constant kind) (known_of_constant kind') types ?_
  intro id node live _
  constructor
  · rintro ⟨producer, produced, _⟩
    rcases producerId?_eq_some.mp produced with ⟨_, _, found⟩
    have computed := (producer?_eq_some.mp found).1
    rw [kind'] at computed
    cases computed
  · intro output
    rcases List.mem_iff_getElem?.mp output with ⟨position, found⟩
    have computed := (formed.output_known id node live position new found).2
    rw [kind'] at computed
    cases computed

end Dataflow

namespace Edit

open Dataflow

section Merge

variable {graph after : Dataflow α} {old new : VarId} {duplicate survivor : NodeId}
  {before : Editing α} {order front back : List NodeId} {buckets : Buckets}

/-- Two nodes that read the same variables, of which the first may be gone and is not read then. -/
structure Mirrors (graph : Dataflow α) (duplicate survivor : NodeId) : Prop where
  live : ∃ content, graph.node? survivor = some content
  inputs : ∀ node content, graph.node? duplicate = some node → graph.node? survivor = some content →
    node.inputs = content.inputs
  read : ∀ var index, (graph.var var).kind = .output duplicate index → graph.IsRead var →
    ∃ node, graph.node? duplicate = some node

omit [Arithmetic α] in
/-- What the survivor is computed from, the duplicate is computed from too. -/
theorem Mirrors.not_computedFrom (mirrors : Mirrors graph duplicate survivor)
    (acyclic : graph.Acyclic) : ¬TransGen graph.ReadsFrom survivor duplicate := by
  intro path
  rcases TransGen.head'_iff.mp path with ⟨source, reads, rest⟩
  have reached : ∃ node, graph.node? duplicate = some node := by
    rcases TransGen.tail'_iff.mp path with ⟨_, _, last⟩
    exact last.live_source
  rcases reached with ⟨node, live⟩
  rcases readsFrom_iff.mp reads with ⟨content, survivorLive, input, member, produced⟩
  rw [← mirrors.inputs node content live survivorLive] at member
  exact acyclic duplicate
    (TransGen.head' (readsFrom_iff.mpr ⟨node, live, input, member, produced⟩) rest)

theorem Mirrors.exists_replace (mirrors : Mirrors graph duplicate survivor) (orderly : graph.Orderly)
    (corresponds : Corresponds graph duplicate survivor old new)
    (types : graph.type old = graph.type new) : ∃ after, graph.replace old new = Except.ok after := by
  rcases corresponds with ⟨index, kind, kind'⟩
  have apart := mirrors.not_computedFrom orderly.acyclic
  apply Dataflow.exists_replace
  refine checkReplacement_of_apart (known_of_kind kind) (known_of_kind kind') types ?_
  intro reader node live readsOld
  have reads : graph.ReadsFrom reader duplicate := by
    rcases mirrors.read old index kind (Or.inr ⟨reader, node, live, readsOld⟩) with
      ⟨content, contentLive⟩
    exact readsFrom_iff.mpr ⟨node, live, old, readsOld,
      producerId?_eq_some.mpr ⟨content, index, producer?_of_output kind contentLive⟩⟩
  constructor
  · rintro ⟨producer, produced, path⟩
    rcases producerId?_eq_some.mp produced with ⟨_, _, found⟩
    have same := (producer?_eq_some.mp found).1
    rw [kind'] at same
    cases same
    exact apart (TransGen.tail' path reads)
  · intro output
    rcases List.mem_iff_getElem?.mp output with ⟨position, found⟩
    have same := (orderly.formed.output_known reader node live position new found).2
    rw [kind'] at same
    cases same
    exact apart (TransGen.single reads)

omit [Arithmetic α] in
theorem Mirrors.replace (mirrors : Mirrors graph duplicate survivor) (pruned : graph.Pruned)
    (corresponds : Corresponds graph duplicate survivor old new)
    (answer : graph.replace old new = Except.ok after) : Mirrors after duplicate survivor := by
  rcases corresponds with ⟨index, kind, kind'⟩
  rcases mirrors.live with ⟨content, survivorLive⟩
  have kept := kept_of_replace pruned survivorLive kind' answer
  rcases replace_eq_ok answer with ⟨_, rfl⟩ | ⟨_, _, rfl⟩
  · exact mirrors
  refine ⟨kept, ?_, ?_⟩
  · intro node other live live'
    rcases node?_redirect_eq_some.mp (node?_prune.mp live).1 with ⟨first, firstLive, rfl⟩
    rcases node?_redirect_eq_some.mp (node?_prune.mp live').1 with ⟨second, secondLive, rfl⟩
    simp only [mirrors.inputs first second firstLive secondLive]
  · intro var position varKind read
    rcases read.of_prune.of_redirect with ⟨rfl, _⟩ | ⟨_, wasRead⟩
    · -- The new variable names the survivor, so this is the case of a single node.
      cases kind'.symm.trans varKind
      exact kept
    · rcases mirrors.read var position varKind wasRead with ⟨node, live⟩
      have produced : (graph.redirect old new).producerId? var = some duplicate := by
        rw [producerId?_redirect]
        exact producerId?_eq_some.mpr ⟨node, position, producer?_of_output varKind live⟩
      exact ⟨_, node?_prune.mpr ⟨node?_redirect_eq_some.mpr ⟨node, live, rfl⟩, read.kept produced⟩⟩

/-- All outputs of the duplicate can be replaced, one after the other. -/
theorem Mirrors.exists_replaceAll {pairs : List (VarId × VarId)} (distinct : order.Nodup)
    (split : order = front ++ duplicate :: back) (member : survivor ∈ front)
    (mirrors : Mirrors graph duplicate survivor) (orderly : graph.Orderly) (pruned : graph.Pruned)
    (keeping : Keeping order front buckets graph)
    (correspond : ∀ pair ∈ pairs, Corresponds graph duplicate survivor pair.1 pair.2 ∧
      graph.type pair.1 = graph.type pair.2) :
    ∃ after, graph.replaceAll pairs = Except.ok after ∧ Keeping order front buckets after := by
  induction pairs generalizing graph with
  | nil => exact ⟨graph, rfl, keeping⟩
  | cons pair rest ih =>
    rcases correspond pair List.mem_cons_self with ⟨corresponds, types⟩
    rcases mirrors.exists_replace orderly corresponds types with ⟨middle, replaced⟩
    have kept := keeping.replace distinct split member
      (fun read => corresponds.elim fun index kinds => mirrors.read _ index kinds.1 read)
      corresponds replaced
    have correspond' : ∀ other ∈ rest, Corresponds middle duplicate survivor other.1 other.2 ∧
        middle.type other.1 = middle.type other.2 := by
      intro other otherMem
      rcases correspond other (List.mem_cons_of_mem _ otherMem) with ⟨corresponds', types'⟩
      refine ⟨corresponds'.replace replaced, ?_⟩
      simpa only [Dataflow.type, Dataflow.var, vars_replace replaced] using types'
    rcases ih (mirrors.replace pruned corresponds replaced) (orderly.replace replaced)
      (pruned.replace replaced) kept correspond' with ⟨after, answer, keptAfter⟩
    refine ⟨after, ?_, keptAfter⟩
    rw [replaceAll, List.foldlM_cons]
    exact Checked.bind_eq_ok_iff.mpr ⟨middle, replaced, answer⟩

theorem types_of_mem_zip {node content : Node α} {pair : VarId × VarId} (formed : graph.Formed)
    (live : graph.node? duplicate = some node) (survivorLive : graph.node? survivor = some content)
    (inputs : node.inputs = content.inputs) (same : content.op == node.op)
    (member : pair ∈ node.outputs.zip content.outputs) : graph.type pair.1 = graph.type pair.2 := by
  have inferred := formed.typed duplicate node live
  rw [inputs, Op.inferTypes_of_beq same (formed.typed survivor content survivorLive)] at inferred
  have types := Except.ok.inj inferred
  rcases List.mem_iff_getElem?.mp member with ⟨index, found⟩
  rcases List.getElem?_zip_eq_some.mp found with ⟨first, second⟩
  have entry := congrArg (·[index]?) types
  simp only [List.getElem?_map, first, second, Option.map_some, Option.some.injEq] at entry
  exact entry.symm

/-- Merging a node into one further to the front succeeds, and changes nothing if it is refused. -/
theorem mergeNode_ends {node content : Node α} (distinct : order.Nodup)
    (split : order = front ++ duplicate :: back) (member : survivor ∈ front)
    (ready : before.graph.Ready) (keeping : Keeping order front buckets before.graph)
    (live : before.graph.node? duplicate = some node)
    (survivorLive : before.graph.node? survivor = some content)
    (inputs : node.inputs = content.inputs) (same : content.op == node.op) :
    Ends (mergeNode duplicate survivor) before (fun answer after => after.graph.Ready ∧
      Keeping order front buckets after.graph ∧ (answer = false → after = before))
      fun _ => False := by
  have mirrors : Mirrors before.graph duplicate survivor := by
    refine ⟨⟨content, survivorLive⟩, ?_, fun _ _ _ _ => ⟨node, live⟩⟩
    intro first second firstLive secondLive
    cases live.symm.trans firstLive
    cases survivorLive.symm.trans secondLive
    exact inputs
  rcases mirrors.exists_replaceAll distinct split member ready.orderly ready.pruned keeping
    (fun pair paired => ⟨corresponds_of_mem_zip ready.formed live survivorLive paired,
      types_of_mem_zip ready.formed live survivorLive inputs same paired⟩) with
    ⟨changed, replaced, kept⟩
  refine Ends.after (graph_run before) ?_
  rw [live, survivorLive]
  refine (replaceValidated_ends ready replaced).imp ?_ fun _ => id
  rintro answer after ⟨readyAfter, ⟨rfl, rfl⟩ | ⟨rfl, rfl⟩⟩
  · exact ⟨readyAfter, kept, by simp⟩
  · exact ⟨readyAfter, keeping, fun _ => rfl⟩

theorem mergeStep_ends {state : Nat × Buckets} {id : NodeId} (distinct : order.Nodup)
    (split : order = front ++ id :: back) (ready : before.graph.Ready)
    (keeping : Keeping order front state.2 before.graph) :
    Ends (mergeStep state id) before (fun next final => final.graph.Ready ∧
      Keeping order (front ++ [id]) next.2 final.graph) fun _ => False := by
  rcases state with ⟨merged, buckets⟩
  have included : ∀ earlier ∈ front, earlier ∈ front ++ [id] :=
    fun _ member => List.mem_append_left _ member
  refine Ends.after (graph_run before) ?_
  cases live : before.graph.node? id with
  | none => exact Ends.pure ⟨ready, keeping.mono included⟩
  | some node =>
    dsimp only
    split
    · exact Ends.pure ⟨ready, keeping.mono included⟩
    split
    · rename_i survivor found
      rcases survivor_of_find? found with ⟨kept, content, survivorLive, accepted⟩
      refine (mergeNode_ends distinct split (keeping.front _ survivor kept) ready keeping live
        survivorLive (keeping.inputs _ survivor kept content survivorLive).symm accepted).bind ?_
      rintro answer after ⟨readyAfter, keptAfter, refused⟩
      cases answer with
      | true => exact Ends.pure ⟨readyAfter, keptAfter.mono included⟩
      | false =>
        cases refused rfl
        exact Ends.pure ⟨readyAfter, keeping.keep live⟩
    · exact Ends.pure ⟨ready, keeping.keep live⟩

theorem total_mergeConstants : Total (mergeConstants : Edit α GraphError Nat) := by
  intro before ready
  refine Ends.after (get_run before) ?_
  -- The variables stay, so two constants still have one type when their turn comes.
  refine (Ends.foldlM (fun _ _ (state : Editing α) => state.graph.Ready ∧
    state.graph.vars = before.graph.vars) ⟨ready, rfl⟩ ?_).imp (fun _ _ holds => holds.1) fun _ => id
  rintro done pair rest merged state split ⟨readyNow, vars⟩
  have member : pair ∈ duplicateConstants before.memory before.graph before.graph.liveVars [] := by
    simp [split]
  rcases sameConstant_eq_true (sameConstant_of_mem member) with
    ⟨first, second, kind, kind', types, _⟩
  simp only [Dataflow.type, Dataflow.var, ← vars] at kind kind' types
  rcases readyNow.formed.exists_replace_constant kind kind' types with ⟨changed, replaced⟩
  refine (replaceValidated_ends readyNow (replaceAll_singleton _ _ _ ▸ replaced)).bind ?_
  rintro answer after ⟨readyAfter, ⟨rfl, rfl⟩ | ⟨rfl, rfl⟩⟩
  · exact Ends.pure ⟨readyAfter, (vars_replace replaced).trans vars⟩
  · exact Ends.pure ⟨readyAfter, vars⟩

end Merge

theorem total_makeNodeInPlace (id : NodeId) :
    Total (makeNodeInPlace id : Edit α GraphError Bool) := by
  intro before ready
  refine (makeNodeInPlace_ends ready.formed.toWellFormed id).imp ?_ fun _ false => false
  rintro changed after (⟨_, rfl, _⟩ | ⟨_, _, _, _, later, _, _, _, replaced, valid, rfl⟩)
  · exact ready
  · exact ⟨ready.formed.replaceNodeOp replaced, ready.pruned.replaceNodeOp replaced, valid⟩

end Edit

namespace Rule

open Edit Dataflow

theorem total_merge (tags : List String) : (Rule.merge tags : Rule α).Total := by
  intro before ready
  refine mapError_ends ?_ _
  refine (total_mergeConstants before ready).bind fun constants middle readyNow => ?_
  rcases readyNow.acyclic.exists_order with ⟨order, ordered⟩
  have respects := respects_of_order ordered
  refine Ends.after (graph_run middle) ?_
  refine Ends.after (ofChecked_eq_ok_iff.mpr ⟨ordered, rfl⟩) ?_
  have start : Keeping order [] [] middle.graph :=
    ⟨respects.producers_first, by simp [bucket], by simp [bucket]⟩
  refine (Ends.foldlM (fun front (state : Nat × Buckets) (now : Editing α) => now.graph.Ready ∧
    Keeping order front state.2 now.graph) ⟨readyNow, start⟩ ?_).bind ?_
  · rintro front id back state now split ⟨readyNow, keeping⟩
    exact mergeStep_ends respects.distinct split readyNow keeping
  · rintro state now ⟨readyNow, _⟩
    exact Ends.pure readyNow

theorem total_makeInPlace (tags : List String) : (Rule.makeInPlace tags : Rule α).Total := by
  intro before ready
  refine mapError_ends ?_ _
  rcases ready.acyclic.exists_order with ⟨order, ordered⟩
  refine Ends.after (graph_run before) ?_
  refine Ends.after (ofChecked_eq_ok_iff.mpr ⟨ordered, rfl⟩) ?_
  refine total_foldlM (fun changed id _ => ?_) false before ready
  exact (total_makeNodeInPlace id).bind fun _ => total_pure _

theorem total_printGraph : (Rule.printGraph : Rule α).Total :=
  fun before ready => Ends.after (get_run before) (Ends.after (log_run _ _ before) (Ends.pure ready))

theorem total_of_standard {query : Query} :
    ∀ entry ∈ (Database.standard : Database α).select query, ∀ rule ∈ entry.2, rule.Total := by
  intro entry member rule selected
  cases isStandard_of_select member selected with
  | merge => exact total_merge _
  | removeIdentity => exact total_removeIdentity
  | addZero | mulOne => exact total_dropOperand _ _ _
  | negNeg => exact total_negNeg
  | subSelf | divSelf => exact total_collapse _ _ _
  | log1p => exact total_log1p
  | logExp => exact total_logExp
  | mulSelf => exact total_mulSelf
  | divByConstant => exact total_divByConstant
  | makeInPlace => exact total_makeInPlace _
  | printGraph => exact total_printGraph

end Rule

end ArrayGraph
