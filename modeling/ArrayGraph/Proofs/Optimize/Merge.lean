import ArrayGraph.Optimize.Rules.Merge
import ArrayGraph.Proofs.Dataflow.Order
import ArrayGraph.Proofs.Elementwise
import ArrayGraph.Proofs.Optimize.Engine

/-!
# Merging duplicates is safe

Two constants are merged if nothing tells their elements apart. Two nodes are merged if the
operations compute the same and the inputs are the same variables. A node that has been kept is found
again under the inputs it had then; that it still has them is due to the order in which nodes are
taken. Merging lets readers read from a node further to the front, so all nodes go on reading from
nodes in front of them, and those in front of a duplicate do not read from it.
-/

namespace ArrayGraph

open Relation

variable {α : Type} [Arithmetic α]

/-- Operations that count as the same one compute the same. -/
theorem Op.evaluate_of_beq {first second : Op α} (same : first == second)
    (fills : ∀ x y : α, first = .fill x → second = .fill y → x == y →
      ∀ element : ElementType, element.normalize x = element.normalize y)
    (hosts : Meaning α) (operands : List (Tensor α)) :
    first.evaluate hosts operands = second.evaluate hosts operands := by
  change first.beq second = true at same
  cases first with
  | fill x =>
    cases second with
    | fill y =>
      have normalized := fills x y rfl rfl same
      cases operands with
      | nil => rfl
      | cons operand rest => simp only [Op.evaluate, Op.compute, Tensor.fill, normalized]
    | _ => cases same
  | host function =>
    cases second with
    | host other =>
      simp only [beq, Bool.and_eq_true, decide_eq_true_eq] at same
      simp only [Op.evaluate, same.2]
    | _ => cases same
  | _ =>
    cases second <;> first
      | cases same; done
      | rfl
      | (simp only [beq, Bool.and_eq_true, decide_eq_true_eq] at same; simp [same])

omit [Arithmetic α] in
theorem ArrayType.ofShape_inj {element element' : ElementType} {shape shape' : List Nat}
    (same : ArrayType.ofShape element shape = ArrayType.ofShape element' shape') :
    element = element' ∧ shape = shape' := by
  simp only [ArrayType.ofShape, ArrayType.mk.injEq] at same
  exact ⟨same.1, List.map_injective_iff.mpr (fun _ _ => Option.some.inj) same.2⟩

namespace Dataflow

variable {graph after : Dataflow α} {old new : VarId}

omit [Arithmetic α] in
theorem Pruned.replace (pruned : graph.Pruned) (answer : graph.replace old new = Except.ok after) :
    after.Pruned := by
  rcases replace_eq_ok answer with ⟨_, rfl⟩ | ⟨_, _, rfl⟩
  · exact pruned
  · exact pruned_prune

end Dataflow

namespace Edit

open Dataflow

variable {setting : Setting α}

section Constants

variable {memory : Memory α} {graph : Dataflow α} {left right : VarId}

theorem sameConstant_eq_true (same : sameConstant memory graph left right) :
    ∃ first second, (graph.var left).kind = .constant first ∧
      (graph.var right).kind = .constant second ∧ graph.type left = graph.type right ∧
      List.Forall₂ (fun x y => Arithmetic.identical x y) (memory.contents first).toList
        (memory.contents second).toList := by
  simp only [sameConstant] at same
  split at same
  · rename_i first second left right
    simp only [Bool.and_eq_true, decide_eq_true_eq, List.all_eq_true] at same
    refine ⟨first, second, Variable.constant?_eq_some.mp left, Variable.constant?_eq_some.mp right,
      same.1.1, List.forall₂_iff_zip.mpr ⟨by simpa using same.1.2, ?_⟩⟩
    intro x y member
    exact same.2 (x, y) member
  · cases same

theorem sameConstant_of_mem {vars kept : List VarId} {pair : VarId × VarId}
    (member : pair ∈ duplicateConstants memory graph vars kept) :
    sameConstant memory graph pair.1 pair.2 := by
  induction vars generalizing kept with
  | nil => cases member
  | cons id rest ih =>
    simp only [duplicateConstants] at member
    split at member
    · exact ih member
    · split at member
      · rename_i survivor found
        rcases List.mem_cons.mp member with rfl | member
        · exact List.find?_some found
        · exact ih member
      · exact ih member

omit [Arithmetic α] in
/-- Values of one type with the same elements stand for the same array. -/
theorem tensor_eq_of_contents {first second : Value} (type : first.type = second.type)
    (contents : List.Forall₂ (· = ·) (memory.contents first).toList (memory.contents second).toList) :
    memory.tensor first = memory.tensor second := by
  rcases ArrayType.ofShape_inj type with ⟨element, shape⟩
  exact Tensor.ext element shape (Array.ext' (List.forall₂_eq_eq_eq ▸ contents))

/-- Constants with elements that nothing tells apart stand for each other. -/
theorem stands_of_sameConstant (serves : graph.Serves setting memory)
    (identical : ∀ job, setting.jobs job → ∀ x y : α, Arithmetic.identical x y → x = y)
    (same : sameConstant memory graph left right) :
    Serves.Stands graph setting memory left right := by
  rcases sameConstant_eq_true same with ⟨first, second, kind, kind', type, contents⟩
  rw [(serves.constants_stored left first kind).2, (serves.constants_stored right second kind').2]
    at type
  refine ⟨Or.inr (Or.inr ⟨second, kind'⟩), ?_⟩
  intro job member found yields
  rw [yields_constant kind] at yields
  rw [yields_constant kind', ← yields,
    tensor_eq_of_contents type (contents.imp (identical job member))]

theorem safe_mergeConstants
    (identical : ∀ job, setting.jobs job → ∀ x y : α, Arithmetic.identical x y → x = y) :
    Safe setting (mergeConstants : Edit α GraphError Nat) := by
  intro before count after serves ran
  rw [mergeConstants, bind_of_ok (get_run before)] at ran
  -- The variables and the memory stay, so two constants are still alike when their turn comes.
  have kept := foldlM_kept (fun _ (state : Editing α) => state.Serves setting ∧
    state.graph.vars = before.graph.vars ∧ state.memory = before.memory) ?_ ⟨serves, rfl, rfl⟩ ran
  · exact kept.1
  · intro merged pair member state next final holds ran
    rcases holds with ⟨serves, vars, memory⟩
    rcases bind_eq_ok_iff.mp ran with ⟨replaced, middle, validated, rest⟩
    have unchanged : middle = final := by
      cases replaced with
      | true =>
        simp only [if_true, pure_eq_ok_iff] at rest
        exact rest.2
      | false =>
        simp only [Bool.false_eq_true, if_false, pure_eq_ok_iff] at rest
        exact rest.2
    subst unchanged
    rcases replaceValidated_eq_ok validated with rfl | ⟨changed, answer, rfl⟩
    · exact ⟨serves, vars, memory⟩
    · rw [replaceAll_singleton] at answer
      have sameVar : ∀ var, state.graph.var var = before.graph.var var := by
        intro var
        simp only [Dataflow.var, vars]
      have same : sameConstant state.memory state.graph pair.1 pair.2 := by
        simp only [sameConstant, Dataflow.type, sameVar, memory]
        exact sameConstant_of_mem member
      refine ⟨⟨?_, serves.pruned.replace answer⟩, (vars_replace answer).trans vars, memory⟩
      exact serves.graph.replace (fun _ => stands_of_sameConstant serves.graph identical same) answer

end Constants

section Nodes

variable {graph after : Dataflow α} {memory : Memory α} {old new : VarId}
  {duplicate survivor : NodeId} {index : Nat}

omit [Arithmetic α] in
/-- What was computed from the producer of the new variable still is: a path that passes through a
reader of the old variable now ends there. -/
theorem computedFrom_redirect {var : VarId} (produced : graph.producerId? new = some survivor)
    (computed : graph.ComputedFrom var survivor) :
    (graph.redirect old new).ComputedFrom (if var = old then new else var) survivor := by
  have reaches : ∀ reader, ReflTransGen graph.ReadsFrom reader survivor →
      ReflTransGen (graph.redirect old new).ReadsFrom reader survivor := by
    intro reader path
    induction path using ReflTransGen.head_induction_on with
    | refl => exact ReflTransGen.refl
    | head reads _ ih =>
      rcases readsFrom_iff.mp reads with ⟨node, live, input, member, inputProduced⟩
      have live' : (graph.redirect old new).node? _ =
          some { node with inputs := substitute old new node.inputs } :=
        node?_redirect_eq_some.mpr ⟨node, live, rfl⟩
      by_cases same : input = old
      · apply ReflTransGen.single
        apply readsFrom_iff.mpr
        refine ⟨_, live', new, ?_, by rwa [producerId?_redirect]⟩
        exact List.mem_map.mpr ⟨input, member, if_pos same⟩
      · refine ReflTransGen.head (readsFrom_iff.mpr ?_) ih
        refine ⟨_, live', input, ?_, by rwa [producerId?_redirect]⟩
        exact List.mem_map.mpr ⟨input, member, if_neg same⟩
  rcases computed with ⟨producer, varProduced, path⟩
  by_cases same : var = old
  · rw [if_pos same]
    exact ⟨survivor, by rwa [producerId?_redirect], ReflTransGen.refl⟩
  · rw [if_neg same]
    exact ⟨producer, by rwa [producerId?_redirect], reaches producer path⟩

omit [Arithmetic α] in
theorem mem_ancestorsOf_redirect {content : Node α} (live : graph.node? survivor = some content)
    (kind : (graph.var new).kind = .output survivor index)
    (needed : survivor ∈ graph.ancestorsOf graph.outputs) :
    survivor ∈ (graph.redirect old new).ancestorsOf (graph.redirect old new).outputs := by
  rcases mem_ancestorsOf.mp needed with ⟨output, member, computed⟩
  have produced : graph.producerId? new = some survivor :=
    producerId?_eq_some.mpr ⟨content, index, producer?_of_output kind live⟩
  exact mem_ancestorsOf.mpr
    ⟨_, List.mem_map.mpr ⟨output, member, rfl⟩, computedFrom_redirect produced computed⟩

omit [Arithmetic α] in
/-- A node whose output is read in the place of another variable is not removed. -/
theorem kept_of_replace {content : Node α} (pruned : graph.Pruned)
    (live : graph.node? survivor = some content) (kind : (graph.var new).kind = .output survivor index)
    (answer : graph.replace old new = Except.ok after) :
    ∃ content', after.node? survivor = some content' := by
  rcases replace_eq_ok answer with ⟨_, rfl⟩ | ⟨_, _, rfl⟩
  · exact ⟨content, live⟩
  · exact ⟨_, node?_prune.mpr ⟨node?_redirect_eq_some.mpr ⟨content, live, rfl⟩,
      mem_ancestorsOf_redirect live kind (pruned survivor content live)⟩⟩

/-- Two nodes, one of which may be gone, that compute the same from the same variables. -/
structure Twins (graph : Dataflow α) (setting : Setting α) (duplicate survivor : NodeId) : Prop where
  live : ∃ content, graph.node? survivor = some content
  alike : ∀ node content, graph.node? duplicate = some node →
    graph.node? survivor = some content → node.inputs = content.inputs ∧
      ∀ job, setting.jobs job → ∀ operands,
        node.op.evaluate setting.hosts operands = content.op.evaluate setting.hosts operands

/-- An output of the one node, and the same output of the other. -/
def Corresponds (graph : Dataflow α) (duplicate survivor : NodeId) (old new : VarId) : Prop :=
  ∃ index, (graph.var old).kind = .output duplicate index ∧
    (graph.var new).kind = .output survivor index

/-- A variable that names a node and is read is computed by that node. -/
theorem live_of_isRead (serves : graph.Serves setting memory) (read : graph.IsRead old)
    (kind : (graph.var old).kind = .output duplicate index) :
    ∃ node, graph.node? duplicate = some node := by
  cases live : graph.node? duplicate with
  | some node => exact ⟨node, rfl⟩
  | none =>
    have unproduced : graph.producerId? old = none := by
      simp [producerId?, Dataflow.producer?, Variable.producer?, kind, live]
    rcases serves.roots_known old read unproduced with origin | ⟨value, constant⟩
    · have root := origin.root
      rw [← var_eq_of_further serves.derives.vars origin.known] at root
      exact absurd kind (isRoot_iff.mp root duplicate index)
    · rw [kind] at constant
      cases constant

theorem Twins.stands (twins : Twins graph setting duplicate survivor)
    (serves : graph.Serves setting memory)
    (corresponds : Corresponds graph duplicate survivor old new) (read : graph.IsRead old) :
    Serves.Stands graph setting memory old new := by
  rcases corresponds with ⟨index, kind, kind'⟩
  rcases twins.live with ⟨content, survivorLive⟩
  rcases live_of_isRead serves read kind with ⟨node, live⟩
  rcases twins.alike node content live survivorLive with ⟨inputs, agree⟩
  have produced := producer?_of_output kind live
  have produced' := producer?_of_output kind' survivorLive
  refine ⟨Or.inr (Or.inl ⟨survivor, producerId?_eq_some.mpr ⟨content, index, produced'⟩⟩), ?_⟩
  intro job member tensor yields
  rcases (Evaluates.output_iff_forall₂ (producerNode?_eq_some.mpr ⟨_, produced⟩)).mp yields with
    ⟨operands, results, evaluate, computed, selected⟩
  apply (Evaluates.output_iff_forall₂ (producerNode?_eq_some.mpr ⟨_, produced'⟩)).mpr
  refine ⟨operands, results, ?_, ?_, selected⟩
  · rw [← inputs]
    exact evaluate
  · rw [← agree job member]
    exact computed

omit [Arithmetic α] in
theorem Corresponds.replace {old' new' : VarId}
    (corresponds : Corresponds graph duplicate survivor old' new')
    (answer : graph.replace old new = Except.ok after) :
    Corresponds after duplicate survivor old' new' := by
  have sameVar : ∀ var, after.var var = graph.var var := by
    intro var
    simp only [Dataflow.var, vars_replace answer]
  simpa only [Corresponds, sameVar] using corresponds

theorem Twins.replace (twins : Twins graph setting duplicate survivor)
    (pruned : graph.Pruned) (corresponds : Corresponds graph duplicate survivor old new)
    (answer : graph.replace old new = Except.ok after) : Twins after setting duplicate survivor := by
  rcases corresponds with ⟨index, _, kind⟩
  rcases twins.live with ⟨content, survivorLive⟩
  refine ⟨kept_of_replace pruned survivorLive kind answer, ?_⟩
  rcases replace_eq_ok answer with ⟨_, rfl⟩ | ⟨_, _, rfl⟩
  · exact twins.alike
  · intro node content' live live'
    rcases node?_redirect_eq_some.mp (node?_prune.mp live).1 with ⟨first, firstLive, rfl⟩
    rcases node?_redirect_eq_some.mp (node?_prune.mp live').1 with ⟨second, secondLive, rfl⟩
    rcases twins.alike first second firstLive secondLive with ⟨inputs, agree⟩
    exact ⟨by rw [inputs], agree⟩

/-- How far merging has come: nodes read from nodes that stand before them in the order, and those
that have been kept are from its front and read what they are kept under. -/
structure Keeping (order front : List NodeId) (buckets : Buckets) (graph : Dataflow α) : Prop where
  sorted : ∀ reader source, graph.ReadsFrom reader source → Precedes order source reader
  front : ∀ key, ∀ id ∈ bucket buckets key, id ∈ front
  inputs : ∀ key, ∀ id ∈ bucket buckets key, ∀ node, graph.node? id = some node → node.inputs = key

variable {order front back : List NodeId} {buckets : Buckets}

omit [Arithmetic α] in
theorem Keeping.mono {more : List NodeId} (keeping : Keeping order front buckets graph)
    (included : ∀ id ∈ front, id ∈ more) : Keeping order more buckets graph :=
  ⟨keeping.sorted, fun key id kept => included id (keeping.front key id kept), keeping.inputs⟩

omit [Arithmetic α] in
theorem mem_bucket_keep {key inputs : List VarId} {id kept : NodeId}
    (member : kept ∈ bucket (keep buckets inputs id) key) :
    kept ∈ bucket buckets key ∨ kept = id ∧ key = inputs := by
  simp only [bucket, keep, List.lookup_cons] at member
  split at member
  · rename_i same
    cases beq_iff_eq.mp same
    simp only [Option.getD_some, List.mem_append, List.mem_singleton] at member
    rcases member with member | rfl
    · exact Or.inl member
    · exact Or.inr ⟨rfl, rfl⟩
  · exact Or.inl member

omit [Arithmetic α] in
theorem Keeping.keep {id : NodeId} {node : Node α} (keeping : Keeping order front buckets graph)
    (live : graph.node? id = some node) :
    Keeping order (front ++ [id]) (keep buckets node.inputs id) graph := by
  refine ⟨keeping.sorted, ?_, ?_⟩
  · intro key kept member
    rcases mem_bucket_keep member with member | ⟨rfl, _⟩
    · exact List.mem_append_left _ (keeping.front key kept member)
    · simp
  · intro key kept member content keptLive
    rcases mem_bucket_keep member with member | ⟨rfl, rfl⟩
    · exact keeping.inputs key kept member content keptLive
    · rw [live] at keptLive
      cases keptLive
      rfl

omit [Arithmetic α] in
/-- Nodes in front of a duplicate do not read from it, and its readers may read from a node in front
of it. -/
theorem Keeping.replace (keeping : Keeping order front buckets graph) (distinct : order.Nodup)
    (split : order = front ++ duplicate :: back) (member : survivor ∈ front)
    (produced : graph.IsRead old → ∃ node, graph.node? duplicate = some node)
    (corresponds : Corresponds graph duplicate survivor old new)
    (answer : graph.replace old new = Except.ok after) : Keeping order front buckets after := by
  have ahead : ∀ id ∈ front, Precedes order id duplicate := fun id inFront =>
    ⟨front, back, split, inFront⟩
  rcases replace_eq_ok answer with ⟨_, rfl⟩ | ⟨_, _, rfl⟩
  · exact keeping
  · rcases corresponds with ⟨index, kind, kind'⟩
    have reads : ∀ reader node, graph.node? reader = some node → old ∈ node.inputs →
        graph.ReadsFrom reader duplicate := by
      intro reader node live readsOld
      rcases produced (Or.inr ⟨reader, node, live, readsOld⟩) with ⟨content, contentLive⟩
      apply readsFrom_iff.mpr
      exact ⟨node, live, old, readsOld,
        producerId?_eq_some.mpr ⟨content, index, producer?_of_output kind contentLive⟩⟩
    refine ⟨?_, keeping.front, ?_⟩
    · intro reader source readsFrom
      rcases readsFrom_iff.mp readsFrom with ⟨node, live, input, inputMem, inputProduced⟩
      have read : (graph.redirect old new).prune.IsRead input :=
        Or.inr ⟨reader, node, live, inputMem⟩
      rw [read.producerId?_prune, producerId?_redirect] at inputProduced
      rcases node?_redirect_eq_some.mp (node?_prune.mp live).1 with ⟨original, originalLive, rfl⟩
      rcases mem_substitute inputMem with ⟨rfl, readsOld⟩ | ⟨_, inputMem⟩
      · have isSurvivor : source = survivor := by
          rcases producerId?_eq_some.mp inputProduced with ⟨_, _, found⟩
          have sameKind := (producer?_eq_some.mp found).1
          rw [kind'] at sameKind
          cases sameKind
          rfl
        rw [isSurvivor]
        exact (ahead survivor member).trans distinct
          (keeping.sorted reader duplicate (reads reader original originalLive readsOld))
      · exact keeping.sorted reader source
          (readsFrom_iff.mpr ⟨original, originalLive, input, inputMem, inputProduced⟩)
    · intro key id kept node live
      rcases node?_redirect_eq_some.mp (node?_prune.mp live).1 with ⟨original, originalLive, rfl⟩
      have unaffected : old ∉ original.inputs := by
        intro readsOld
        exact (ahead id (keeping.front key id kept)).asymm distinct
          (keeping.sorted id duplicate (reads id original originalLive readsOld))
      simp only [substitute_of_notMem unaffected]
      exact keeping.inputs key id kept original originalLive

/-- Letting the outputs of a node stand for those of a twin further back keeps everything. -/
theorem replaceAll_kept {pairs : List (VarId × VarId)} (distinct : order.Nodup)
    (split : order = front ++ duplicate :: back) (member : survivor ∈ front)
    (serves : graph.Serves setting memory) (pruned : graph.Pruned)
    (keeping : Keeping order front buckets graph)
    (twins : Twins graph setting duplicate survivor)
    (correspond : ∀ pair ∈ pairs, Corresponds graph duplicate survivor pair.1 pair.2)
    (answer : graph.replaceAll pairs = Except.ok after) :
    after.Serves setting memory ∧ after.Pruned ∧ Keeping order front buckets after := by
  have kept := Checked.foldlM_invariant (fun current : Dataflow α =>
    (current.Serves setting memory ∧ current.Pruned ∧ Keeping order front buckets current) ∧
      Twins current setting duplicate survivor ∧
      ∀ pair ∈ pairs, Corresponds current duplicate survivor pair.1 pair.2) ?_
    ⟨⟨serves, pruned, keeping⟩, twins, correspond⟩ answer
  · exact kept.1
  · rintro current pair pairMem next ⟨⟨serves, pruned, keeping⟩, twins, correspond⟩ answer
    have corresponds := correspond pair pairMem
    refine ⟨⟨?_, pruned.replace answer, ?_⟩, twins.replace pruned corresponds answer, ?_⟩
    · exact serves.replace (twins.stands serves corresponds) answer
    · refine keeping.replace distinct split member (fun read => ?_) corresponds answer
      rcases corresponds with ⟨_, kind, _⟩
      exact live_of_isRead serves read kind
    · exact fun other otherMem => (correspond other otherMem).replace answer

theorem corresponds_of_mem_zip (formed : graph.Formed) {node content : Node α}
    (live : graph.node? duplicate = some node) (survivorLive : graph.node? survivor = some content)
    {pair : VarId × VarId} (member : pair ∈ node.outputs.zip content.outputs) :
    Corresponds graph duplicate survivor pair.1 pair.2 := by
  rcases List.mem_iff_getElem?.mp member with ⟨index, found⟩
  rcases List.getElem?_zip_eq_some.mp found with ⟨first, second⟩
  exact ⟨index, (formed.output_known duplicate node live index _ first).2,
    (formed.output_known survivor content survivorLive index _ second).2⟩

/-- Without destructive nodes a replacement that succeeds is put in place. -/
theorem replaceValidated_of_free {before after : Editing α} {pairs : List (VarId × VarId)} {answer : Bool}
    (free : before.graph.hasDestroyers = false)
    (ran : replaceValidated pairs before = .ok answer after) :
    answer = true ∧ ∃ changed, before.graph.replaceAll pairs = Except.ok changed ∧
      after = { before with graph := changed } := by
  rw [replaceValidated, bind_of_ok (graph_run before)] at ran
  rcases bind_eq_ok_iff.mp ran with ⟨changed, middle, replaced, ran⟩
  rcases ofChecked_eq_ok_iff.mp replaced with ⟨answered, rfl⟩
  rw [free] at ran
  cases ran
  exact ⟨rfl, changed, answered, rfl⟩

theorem mergeNode_cases {before after : Editing α} {node content : Node α} {answer : Bool}
    (live : before.graph.node? duplicate = some node)
    (survivorLive : before.graph.node? survivor = some content)
    (ran : mergeNode duplicate survivor before = .ok answer after) :
    (∃ changed, before.graph.replaceAll (node.outputs.zip content.outputs) = Except.ok changed ∧
      answer = true ∧ after = { before with graph := changed }) ∨
    answer = false ∧ after = before ∧ before.graph.hasDestroyers := by
  rw [mergeNode, bind_of_ok (graph_run before), live, survivorLive] at ran
  dsimp only at ran
  cases destroyers : before.graph.hasDestroyers with
  | false =>
    rcases replaceValidated_of_free destroyers ran with ⟨rfl, changed, replaced, rfl⟩
    exact Or.inl ⟨changed, replaced, rfl, rfl⟩
  | true =>
    rcases replaceValidated_cases before (node.outputs.zip content.outputs) with
      ⟨changed, replaced, same⟩ | same | ⟨failure, same⟩
    · rw [same] at ran
      cases ran
      exact Or.inl ⟨changed, replaced, rfl, rfl⟩
    · rw [same] at ran
      cases ran
      exact Or.inr ⟨rfl, rfl, rfl⟩
    · rw [same] at ran
      cases ran

/-- A node is merged into one of the candidates, which is there and has an equal operation. -/
theorem survivor_of_find? {candidates : List NodeId} {op : Op α} {survivor : NodeId}
    (found : candidates.find? (fun candidate =>
      match graph.node? candidate with
      | some other => other.op == op
      | none => false) = some survivor) :
    survivor ∈ candidates ∧ ∃ content, graph.node? survivor = some content ∧ content.op == op := by
  refine ⟨List.mem_of_find?_eq_some found, ?_⟩
  have accepted := List.find?_some found
  cases live : graph.node? survivor with
  | none => simp [live] at accepted
  | some content => exact ⟨content, rfl, by simpa [live] using accepted⟩

/-- What happens to a node that has its turn: nothing if it is gone or overwrites an input, it is kept,
or it is merged into one that was kept before under the same inputs. -/
inductive Merges (before : Editing α) (id : NodeId) (state : Nat × Buckets) :
    Nat × Buckets → Editing α → Prop where
  | skip (destructive : ∀ node, before.graph.node? id = some node → node.op.isDestructive) :
      Merges before id state state before
  | keep {node : Node α} (live : before.graph.node? id = some node)
      (unlike : before.graph.hasDestroyers ∨ ∀ other ∈ bucket state.2 node.inputs, ∀ content,
        before.graph.node? other = some content → ¬(content.op == node.op)) :
      Merges before id state (state.1, Edit.keep state.2 node.inputs id) before
  | merge {node content : Node α} {survivor : NodeId} {changed : Dataflow α}
      (live : before.graph.node? id = some node) (kept : survivor ∈ bucket state.2 node.inputs)
      (survivorLive : before.graph.node? survivor = some content) (same : content.op == node.op)
      (replaced : before.graph.replaceAll (node.outputs.zip content.outputs) = Except.ok changed) :
      Merges before id state (state.1 + 1, state.2) { before with graph := changed }

theorem merges_of_mergeStep {before after : Editing α} {state next : Nat × Buckets} {id : NodeId}
    (ran : mergeStep state id before = .ok next after) : Merges before id state next after := by
  rcases state with ⟨merged, buckets⟩
  simp only [mergeStep, bind_of_ok (graph_run before)] at ran
  cases live : before.graph.node? id with
  | none =>
    rw [live] at ran
    cases ran
    exact .skip (by simp [live])
  | some node =>
    rw [live] at ran
    dsimp only at ran
    by_cases destructive : node.op.isDestructive
    · rw [if_pos destructive] at ran
      cases ran
      exact .skip (by simp [live, destructive])
    rw [if_neg destructive] at ran
    generalize found : (bucket buckets node.inputs).find? _ = survivor? at ran
    cases survivor? with
    | none =>
      cases ran
      refine .keep live (Or.inr fun other member content otherLive => ?_)
      simpa [otherLive] using List.find?_eq_none.mp found other member
    | some survivor =>
      rcases survivor_of_find? found with ⟨kept, content, survivorLive, accepted⟩
      rcases bind_eq_ok_iff.mp ran with ⟨answer, middle, merging, rest⟩
      rcases mergeNode_cases live survivorLive merging with
        ⟨changed, replaced, rfl, rfl⟩ | ⟨rfl, rfl, destroyers⟩
      · simp only [if_true, pure_eq_ok_iff] at rest
        rcases rest with ⟨rfl, rfl⟩
        exact .merge live kept survivorLive accepted replaced
      · simp only [Bool.false_eq_true, if_false, pure_eq_ok_iff] at rest
        rcases rest with ⟨rfl, rfl⟩
        exact .keep live (Or.inl destroyers)

theorem mergeStep_kept {before after : Editing α} {state next : Nat × Buckets} {id : NodeId}
    (fills : ∀ job, setting.jobs job → ∀ x y : α, x == y →
      ∀ element : ElementType, element.normalize x = element.normalize y)
    (distinct : order.Nodup) (split : order = front ++ id :: back)
    (serves : Editing.Serves before setting) (keeping : Keeping order front state.2 before.graph)
    (ran : mergeStep state id before = .ok next after) :
    Editing.Serves after setting ∧ Keeping order (front ++ [id]) next.2 after.graph := by
  cases merges_of_mergeStep ran with
  | skip _ => exact ⟨serves, keeping.mono fun _ member => List.mem_append_left _ member⟩
  | keep live _ => exact ⟨serves, keeping.keep live⟩
  | @merge node content survivor changed live kept survivorLive accepted replaced =>
    have twins : Twins before.graph setting id survivor := by
      refine ⟨⟨content, survivorLive⟩, ?_⟩
      intro first second firstLive secondLive
      rw [live] at firstLive
      rw [survivorLive] at secondLive
      cases firstLive
      cases secondLive
      refine ⟨(keeping.inputs node.inputs survivor kept content survivorLive).symm, ?_⟩
      intro job member operands
      exact (Op.evaluate_of_beq accepted (fun x y _ _ => fills job member x y) setting.hosts
        operands).symm
    rcases replaceAll_kept distinct split (keeping.front _ survivor kept) serves.graph
      serves.pruned keeping twins
      (fun pair => corresponds_of_mem_zip serves.graph.toFormed live survivorLive) replaced with
      ⟨graph, pruned, keeping'⟩
    exact ⟨⟨graph, pruned⟩, keeping'.mono fun _ member => List.mem_append_left _ member⟩

/-- Merging nodes from a place in the order on. -/
theorem mergeSteps_serve {before after : Editing α} {state next : Nat × Buckets}
    (fills : ∀ job, setting.jobs job → ∀ x y : α, x == y →
      ∀ element : ElementType, element.normalize x = element.normalize y)
    (distinct : order.Nodup) (split : order = front ++ back)
    (serves : Editing.Serves before setting) (keeping : Keeping order front state.2 before.graph)
    (ran : back.foldlM mergeStep state before = .ok next after) :
    Editing.Serves after setting := by
  induction back generalizing front state before with
  | nil =>
    simp only [List.foldlM_nil, pure_eq_ok_iff] at ran
    rcases ran with ⟨_, rfl⟩
    exact serves
  | cons id rest ih =>
    simp only [List.foldlM_cons, bind_eq_ok_iff] at ran
    rcases ran with ⟨middle, between, first, others⟩
    rcases mergeStep_kept fills distinct split serves keeping first with ⟨serves', keeping'⟩
    exact ih (by simpa using split) serves' keeping' others

end Nodes

end Edit

/-- Merging is safe if nothing tells identical constants apart, and equal numbers fill arrays with
the same elements. -/
theorem Rule.safe_merge {setting : Setting α} {tags : List String}
    (identical : ∀ job, setting.jobs job → ∀ x y : α, Arithmetic.identical x y → x = y)
    (fills : ∀ job, setting.jobs job → ∀ x y : α, x == y →
      ∀ element : ElementType, element.normalize x = element.normalize y) :
    (Rule.merge tags : Rule α).Safe setting := by
  apply Edit.Safe.mapError
  refine (Edit.safe_mergeConstants identical).bind fun constants => ?_
  intro before value after serves ran
  rw [bind_of_ok (Edit.graph_run before)] at ran
  rcases bind_eq_ok_iff.mp ran with ⟨order, middle, ordered, ran⟩
  rcases Edit.ofChecked_eq_ok_iff.mp ordered with ⟨answer, rfl⟩
  rcases bind_eq_ok_iff.mp ran with ⟨result, final, ran, rest⟩
  have respects := Dataflow.respects_of_order answer
  have serves' : Editing.Serves final setting := by
    refine Edit.mergeSteps_serve fills respects.distinct (List.nil_append _).symm serves ?_ ran
    exact ⟨respects.producers_first, by simp [Edit.bucket], by simp [Edit.bucket]⟩
  simp only [pure_eq_ok_iff] at rest
  rcases rest with ⟨_, rfl⟩
  exact serves'

end ArrayGraph
