import ArrayGraph.Proofs.Dataflow.Sourced
import ArrayGraph.Proofs.Optimize.Total

/-!
# One pass of merging is enough

After a merge nothing is there twice, and a second merge finds nothing to do. Constants that repeat
another one are read by nobody once they have been replaced. Nodes are taken in schedule order: when a
node's turn comes its inputs have been merged for good, since a later replacement concerns the outputs
of nodes that come later, and a node in front reads none of these. So the list of inputs under which a
node is kept is the one it has in the end, and a node that is kept differs from all that were kept under
the same list. A node that is merged loses all its outputs, and with them the reason to be there.
-/

namespace ArrayGraph

open Relation

variable {α : Type} [Arithmetic α]

/-- The order of two elements makes no difference to the tests for equality. -/
structure SymmetricTests (α : Type) [Arithmetic α] : Prop where
  equal : ∀ x y : α, x == y → y == x
  identical : ∀ x y : α, Arithmetic.identical x y → Arithmetic.identical y x

theorem symmetricTests_float : SymmetricTests Float where
  equal x y same := by
    have swap : ∀ first second : Float.Model.UnpackedFloat,
        Float.Model.UnpackedFloat.compare first second = some .eq →
          Float.Model.UnpackedFloat.compare second first = some .eq := by
      intro first second same
      rcases first with (_ | _) | _ | _ | ⟨_ | _, mantissa, exponent, positive⟩ <;>
        rcases second with (_ | _) | _ | _ | ⟨_ | _, mantissa', exponent', positive'⟩ <;>
        simp_all [Float.Model.UnpackedFloat.compare, Ordering.swap_eq_eq, Ordering.then_eq_eq]
    change (Float.Model.UnpackedFloat.compare _ _ == some .eq) = true at same
    change (Float.Model.UnpackedFloat.compare _ _ == some .eq) = true
    exact beq_iff_eq.mpr (swap _ _ (beq_iff_eq.mp same))
  identical x y same := beq_iff_eq.mpr (beq_iff_eq.mp same).symm

theorem Op.beq_symm (tests : SymmetricTests α) {first second : Op α} (same : first == second) :
    second == first := by
  change first.beq second = true at same
  change second.beq first = true
  cases first with
  | fill x =>
    cases second with
    | fill y => exact tests.equal x y same
    | _ => cases same
  | host function =>
    cases second with
    | host other =>
      simp only [beq, Bool.and_eq_true, decide_eq_true_eq] at same ⊢
      exact ⟨⟨⟨same.1.1.1.symm, same.1.1.2.symm⟩, same.1.2.symm⟩, same.2.symm⟩
    | _ => cases same
  | _ =>
    cases second <;> first
      | cases same; done
      | rfl
      | (simp only [beq, Bool.and_eq_true, decide_eq_true_eq] at same ⊢; simp [same])

/-- No two live nodes apply the same operation to the same variables, and no two constants in use have
the same type and the same elements. -/
structure Editing.Irredundant (editing : Editing α) : Prop where
  nodes : ∀ id id' node node', editing.graph.node? id = some node →
    editing.graph.node? id' = some node' → node.op == node'.op → node.inputs = node'.inputs → id = id'
  constants : ∀ var ∈ editing.graph.liveVars, ∀ var' ∈ editing.graph.liveVars, ∀ value value',
    (editing.graph.var var).kind = .constant value →
    (editing.graph.var var').kind = .constant value' →
    editing.graph.type var = editing.graph.type var' →
    List.Forall₂ (fun x y => Arithmetic.identical x y) (editing.memory.contents value).toList
      (editing.memory.contents value').toList → var = var'

namespace Dataflow

variable {graph after : Dataflow α} {old new var : VarId} {id : NodeId} {node : Node α}
  {pairs : List (VarId × VarId)}

omit [Arithmetic α] in
/-- Of variables none of which is put in the place of another, those that were replaced are read by
nobody. -/
theorem reads_of_replaceAll (apart : ∀ pair ∈ pairs, ∀ other ∈ pairs, pair.1 ≠ other.2)
    (answer : graph.replaceAll pairs = Except.ok after) :
    (∀ pair ∈ pairs, ¬after.IsRead pair.1) ∧
      ∀ var, after.IsRead var → graph.IsRead var ∨ ∃ pair ∈ pairs, var = pair.2 := by
  induction pairs generalizing graph with
  | nil =>
    cases answer
    exact ⟨by simp, fun _ read => Or.inl read⟩
  | cons pair rest ih =>
    rw [replaceAll, List.foldlM_cons, Checked.bind_eq_ok_iff] at answer
    rcases answer with ⟨middle, replaced, answer⟩
    rcases ih (fun first firstMem second secondMem =>
      apart first (List.mem_cons_of_mem _ firstMem) second (List.mem_cons_of_mem _ secondMem)) answer
      with ⟨unread, reads⟩
    have here : ∀ var, middle.IsRead var → var ≠ pair.1 ∧ (graph.IsRead var ∨ var = pair.2) := by
      intro var read
      have different := apart pair List.mem_cons_self pair List.mem_cons_self
      rcases replace_eq_ok replaced with ⟨same, _⟩ | ⟨_, _, rfl⟩
      · exact absurd same different
      · rcases read.of_prune.of_redirect with ⟨rfl, _⟩ | ⟨other, before⟩
        · exact ⟨different.symm, Or.inr rfl⟩
        · exact ⟨other, Or.inl before⟩
    constructor
    · intro other member read
      rcases List.mem_cons.mp member with rfl | member
      · rcases reads other.1 read with before | ⟨later, laterMem, same⟩
        · exact (here other.1 before).1 rfl
        · exact apart other List.mem_cons_self later (List.mem_cons_of_mem _ laterMem) same
      · exact unread other member read
    · intro var read
      rcases reads var read with before | ⟨later, laterMem, same⟩
      · rcases (here var before).2 with before | same
        · exact Or.inl before
        · exact Or.inr ⟨pair, List.mem_cons_self, same⟩
      · exact Or.inr ⟨later, List.mem_cons_of_mem _ laterMem, same⟩

omit [Arithmetic α] in
/-- What nodes apply and what they compute is not replaced. -/
theorem live_of_replaceAll (answer : graph.replaceAll pairs = Except.ok after)
    (live : after.node? id = some node) : ∃ original, graph.node? id = some original ∧
      original.op = node.op ∧ original.outputs = node.outputs := by
  refine Checked.foldlM_invariant (fun current : Dataflow α => ∀ node, current.node? id = some node →
    ∃ original, graph.node? id = some original ∧ original.op = node.op ∧
      original.outputs = node.outputs) ?_ (fun node live => ⟨node, live, rfl, rfl⟩) answer node live
  intro current pair _ next before replaced node live
  rcases replace_eq_ok replaced with ⟨_, rfl⟩ | ⟨_, _, rfl⟩
  · exact before node live
  · rcases node?_redirect_eq_some.mp (node?_prune.mp live).1 with ⟨content, contentLive, rfl⟩
    exact before content contentLive

omit [Arithmetic α] in
theorem inputs_replaceAll (answer : graph.replaceAll pairs = Except.ok after) :
    after.inputs = graph.inputs := by
  refine Checked.foldlM_invariant (fun current : Dataflow α => current.inputs = graph.inputs) ?_ rfl
    answer
  intro current pair _ next same replaced
  rcases replace_eq_ok replaced with ⟨_, rfl⟩ | ⟨_, _, rfl⟩
  · exact same
  · exact same

omit [Arithmetic α] in
/-- A node whose outputs nobody reads is not there. -/
theorem Pruned.gone_of_unread (pruned : graph.Pruned)
    (unread : ∀ var, graph.producerId? var = some id → ¬graph.IsRead var) : graph.node? id = none := by
  cases found : graph.node? id with
  | none => rfl
  | some node =>
    rcases mem_ancestorsOf.mp (pruned id node found) with ⟨output, member, producer, produced, path⟩
    rcases ReflTransGen.cases_tail path with rfl | ⟨reader, _, reads⟩
    · exact absurd (Or.inl member) (unread output produced)
    · rcases readsFrom_iff.mp reads with ⟨content, live, input, inputMem, inputProduced⟩
      exact absurd (Or.inr ⟨reader, content, live, inputMem⟩) (unread input inputProduced)

theorem Formed.mem_outputs_of_kind (formed : graph.Formed) (live : graph.node? id = some node)
    {index : Nat} (kind : (graph.var var).kind = .output id index) : var ∈ node.outputs :=
  List.mem_of_getElem? (formed.output_listed var id index node (known_of_kind kind) kind live)

omit [Arithmetic α] in
theorem mem_liveVars : var ∈ graph.liveVars ↔ var.index < graph.vars.size ∧
    (var ∈ graph.inputs ∨ graph.IsRead var ∨
      ∃ id node, graph.node? id = some node ∧ var ∈ node.outputs) := by
  simp only [liveVars, IsRead, List.mem_filter, mem_varIds, List.mem_append, List.mem_flatMap,
    Prod.exists, mem_liveNodes, decide_eq_true_eq]
  refine and_congr_right fun _ => ?_
  constructor
  · rintro ((input | output) | ⟨id, node, live, read | written⟩)
    · exact Or.inl input
    · exact Or.inr (Or.inl (Or.inl output))
    · exact Or.inr (Or.inl (Or.inr ⟨id, node, live, read⟩))
    · exact Or.inr (Or.inr ⟨id, node, live, written⟩)
  · rintro (input | (output | ⟨id, node, live, read⟩) | ⟨id, node, live, written⟩)
    · exact Or.inl (Or.inl input)
    · exact Or.inl (Or.inr output)
    · exact Or.inr ⟨id, node, live, Or.inl read⟩
    · exact Or.inr ⟨id, node, live, Or.inr written⟩

omit [Arithmetic α] in
theorem nodup_liveVars : graph.liveVars.Nodup := by
  have distinct : graph.varIds.Nodup :=
    List.nodup_range.map fun _ _ same => VarId.mk.inj same
  exact distinct.filter _

/-- A constant in use that is no declared input is read. -/
theorem Formed.isRead_of_constant (formed : graph.Formed) {value : Value}
    (live : var ∈ graph.liveVars) (kind : (graph.var var).kind = .constant value)
    (inputs : ∀ input ∈ graph.inputs, ∀ value, (graph.var input).kind ≠ .constant value) :
    graph.IsRead var := by
  rcases (mem_liveVars.mp live).2 with input | read | ⟨id, node, nodeLive, written⟩
  · exact absurd kind (inputs var input value)
  · exact read
  · rcases List.mem_iff_getElem?.mp written with ⟨index, found⟩
    have computed := (formed.output_known id node nodeLive index var found).2
    rw [kind] at computed
    cases computed

end Dataflow

namespace Edit

open Dataflow

section Constants

variable {memory : Memory α} {graph : Dataflow α} {vars kept : List VarId} {id other : VarId}
  {before after : Editing α} {pairs : List (VarId × VarId)}

/-- Replaced constants come from the list, and those in their place from it or from what was kept. -/
theorem mem_of_mem_duplicateConstants {pair : VarId × VarId}
    (member : pair ∈ duplicateConstants memory graph vars kept) :
    pair.1 ∈ vars ∧ (pair.2 ∈ kept ∨ pair.2 ∈ vars) := by
  induction vars generalizing kept with
  | nil => cases member
  | cons id rest ih =>
    have further : ∀ {kept' : List VarId}, (∀ var ∈ kept', var ∈ kept ∨ var = id) →
        pair ∈ duplicateConstants memory graph rest kept' →
        pair.1 ∈ id :: rest ∧ (pair.2 ∈ kept ∨ pair.2 ∈ id :: rest) := by
      intro kept' included member
      rcases ih member with ⟨first, second | second⟩
      · refine ⟨List.mem_cons_of_mem _ first, ?_⟩
        rcases included _ second with second | same
        · exact Or.inl second
        · exact Or.inr (same ▸ List.mem_cons_self)
      · exact ⟨List.mem_cons_of_mem _ first, Or.inr (List.mem_cons_of_mem _ second)⟩
    simp only [duplicateConstants] at member
    split at member
    · exact further (fun _ inside => Or.inl inside) member
    · split at member
      · rename_i survivor found
        rcases List.mem_cons.mp member with rfl | member
        · exact ⟨List.mem_cons_self, Or.inl (List.mem_of_find?_eq_some found)⟩
        · exact further (fun _ inside => Or.inl inside) member
      · refine further (fun var inside => ?_) member
        simpa using inside

/-- A constant that others are replaced by is not replaced itself. -/
theorem duplicateConstants_apart (distinct : vars.Nodup) (outside : ∀ var ∈ vars, var ∉ kept) :
    ∀ pair ∈ duplicateConstants memory graph vars kept,
      ∀ other ∈ duplicateConstants memory graph vars kept, pair.1 ≠ other.2 := by
  -- What is kept grows along the list, and always lies outside of what is left of it.
  induction vars generalizing kept with
  | nil => simp [duplicateConstants]
  | cons id rest ih =>
    rcases List.nodup_cons.mp distinct with ⟨new, distinct⟩
    have restOutside : ∀ var ∈ rest, var ∉ kept := fun var member =>
      outside var (List.mem_cons_of_mem _ member)
    simp only [duplicateConstants]
    split
    · exact ih distinct restOutside
    · split
      · rename_i survivor found
        have survivorKept := List.mem_of_find?_eq_some found
        have idOutside : id ∉ kept := outside id List.mem_cons_self
        intro pair pairMem other otherMem same
        rcases List.mem_cons.mp pairMem with rfl | pairMem <;>
          rcases List.mem_cons.mp otherMem with rfl | otherMem
        · change id = survivor at same
          exact idOutside (same ▸ survivorKept)
        · change id = other.2 at same
          rcases (mem_of_mem_duplicateConstants otherMem).2 with inside | inside
          · exact idOutside (same ▸ inside)
          · exact new (same ▸ inside)
        · exact restOutside _ (mem_of_mem_duplicateConstants pairMem).1 (same ▸ survivorKept)
        · exact ih distinct restOutside pair pairMem other otherMem same
      · refine ih distinct fun var member inside => ?_
        rcases List.mem_append.mp inside with inside | inside
        · exact restOutside var member inside
        · exact new (List.mem_singleton.mp inside ▸ member)

theorem not_sameConstant_of_none (root : (graph.var other).constant? = none) :
    ¬sameConstant memory graph id other := by
  intro same
  rcases sameConstant_eq_true same with ⟨_, second, _, kind, _⟩
  rw [Variable.constant?_eq_some.mpr kind] at root
  cases root

/-- A constant that is not replaced differs from all that were kept before it. -/
theorem not_sameConstant_of_mem_kept (member : id ∈ vars)
    (unpaired : ∀ pair ∈ duplicateConstants memory graph vars kept, pair.1 ≠ id)
    (otherMem : other ∈ kept) : ¬sameConstant memory graph id other := by
  induction vars generalizing kept with
  | nil => cases member
  | cons head rest ih =>
    simp only [duplicateConstants] at unpaired
    intro same
    rcases List.mem_cons.mp member with rfl | member
    · rcases sameConstant_eq_true same with ⟨first, _, kind, _⟩
      rw [Variable.constant?_eq_some.mpr kind] at unpaired
      cases found : kept.find? (sameConstant memory graph id) with
      | none => exact List.find?_eq_none.mp found other otherMem same
      | some survivor =>
        simp only [found] at unpaired
        exact unpaired (id, survivor) List.mem_cons_self rfl
    · split at unpaired
      · exact ih member unpaired otherMem same
      · split at unpaired
        · exact ih member (fun pair inside => unpaired pair (List.mem_cons_of_mem _ inside)) otherMem
            same
        · exact ih member unpaired (List.mem_append_left _ otherMem) same

theorem not_sameConstant_of_head (member : other ∈ vars)
    (unpaired : ∀ pair ∈ duplicateConstants memory graph (id :: vars) kept,
      pair.1 ≠ id ∧ pair.1 ≠ other) : ¬sameConstant memory graph other id := by
  simp only [duplicateConstants] at unpaired
  split at unpaired
  · exact not_sameConstant_of_none ‹_›
  · split at unpaired
    · exact absurd rfl (unpaired (id, _) List.mem_cons_self).1
    · exact not_sameConstant_of_mem_kept member (fun pair inside => (unpaired pair inside).2) (by simp)

theorem sameConstant_of_forall₂ {first second : Value} (kind : (graph.var id).kind = .constant first)
    (kind' : (graph.var other).kind = .constant second) (type : graph.type id = graph.type other)
    (elements : List.Forall₂ (fun x y => Arithmetic.identical x y) (memory.contents first).toList
      (memory.contents second).toList) : sameConstant memory graph id other := by
  have size : (memory.contents first).size = (memory.contents second).size := by
    simpa using elements.length_eq
  simp only [sameConstant, Variable.constant?_eq_some.mpr kind, Variable.constant?_eq_some.mpr kind',
    type, size, decide_true, Bool.and_self, Bool.true_and, List.all_eq_true]
  rintro ⟨x, y⟩ member
  exact (List.forall₂_iff_zip.mp elements).2 member

theorem sameConstant_congr {changed : Dataflow α} (vars : changed.vars = graph.vars) :
    sameConstant memory changed id other = sameConstant memory graph id other := by
  have sameVar : ∀ var, changed.var var = graph.var var := fun var => by
    simp only [Dataflow.var, vars]
  simp only [sameConstant, Dataflow.type, sameVar]
  rfl

theorem sameConstant_symm (tests : SymmetricTests α) (same : sameConstant memory graph id other) :
    sameConstant memory graph other id := by
  rcases sameConstant_eq_true same with ⟨first, second, kind, kind', type, elements⟩
  exact sameConstant_of_forall₂ kind' kind type.symm (elements.flip.imp fun x y => tests.identical y x)

/-- Constants that are not replaced are all different. -/
theorem eq_of_sameConstant (tests : SymmetricTests α) (member : id ∈ vars) (otherMem : other ∈ vars)
    (unpaired : ∀ pair ∈ duplicateConstants memory graph vars kept, pair.1 ≠ id ∧ pair.1 ≠ other)
    (same : sameConstant memory graph id other) : id = other := by
  induction vars generalizing kept with
  | nil => cases member
  | cons head rest ih =>
    rcases List.mem_cons.mp member with rfl | inRest <;>
      rcases List.mem_cons.mp otherMem with rfl | otherInRest
    · rfl
    · exact absurd (sameConstant_symm tests same) (not_sameConstant_of_head otherInRest unpaired)
    · have swapped := fun pair inside => (unpaired pair inside).symm
      exact absurd same (not_sameConstant_of_head inRest swapped)
    · simp only [duplicateConstants] at unpaired
      split at unpaired
      · exact ih inRest otherInRest unpaired
      · split at unpaired
        · exact ih inRest otherInRest fun pair inside => unpaired pair (List.mem_cons_of_mem _ inside)
        · exact ih inRest otherInRest unpaired

/-- Constants are merged one after the other. -/
theorem replaceAll_of_mergeEach {merged count : Nat} (free : before.graph.hasDestroyers = false)
    (ran : (pairs.foldlM (fun merged pair => do
      if ← replaceValidated [pair] then pure (merged + 1) else pure merged) merged :
        Edit α GraphError Nat) before = .ok count after) :
    ∃ changed, before.graph.replaceAll pairs = Except.ok changed ∧
      after = { before with graph := changed } := by
  induction pairs generalizing merged before with
  | nil =>
    cases ran
    exact ⟨_, rfl, rfl⟩
  | cons pair rest ih =>
    rw [List.foldlM_cons] at ran
    rcases bind_eq_ok_iff.mp ran with ⟨next, middle, round, ran⟩
    rcases bind_eq_ok_iff.mp round with ⟨answer, between, validated, counted⟩
    rcases replaceValidated_of_free free validated with ⟨rfl, changed, replaced, rfl⟩
    simp only [if_true, pure_eq_ok_iff] at counted
    rcases counted with ⟨rfl, rfl⟩
    rw [replaceAll_singleton] at replaced
    rcases ih (not_hasDestroyers_replace free replaced) ran with ⟨final, answer, rfl⟩
    refine ⟨final, ?_, rfl⟩
    rw [replaceAll, List.foldlM_cons]
    exact Checked.bind_eq_ok_iff.mpr ⟨changed, replaced, answer⟩

end Constants

section Nodes

variable {order front back : List NodeId} {buckets : Buckets} {base graph changed : Dataflow α}
  {before after : Editing α} {id duplicate survivor : NodeId} {node content : Node α}

theorem length_outputs_of_beq (formed : graph.Formed) (live : graph.node? duplicate = some node)
    (survivorLive : graph.node? survivor = some content) (inputs : node.inputs = content.inputs)
    (same : content.op == node.op) : node.outputs.length = content.outputs.length := by
  have inferred := formed.typed duplicate node live
  rw [inputs, Op.inferTypes_of_beq same (formed.typed survivor content survivorLive)] at inferred
  simpa using (congrArg List.length (Except.ok.inj inferred)).symm

/-- How far merging has come: what is left of the nodes in front is kept under what it reads and
differs from whatever else is kept there, and no constant is read that was not read at the start. -/
structure Merging (order taken : List NodeId) (buckets : Buckets) (base graph : Dataflow α) : Prop
    extends Keeping order taken buckets graph where
  orderly : graph.Orderly
  pruned : graph.Pruned
  free : graph.hasDestroyers = false
  covered : ∀ id ∈ taken, ∀ node, graph.node? id = some node → id ∈ bucket buckets node.inputs
  unlike : ∀ key, ∀ id ∈ bucket buckets key, ∀ id' ∈ bucket buckets key, ∀ node node',
    graph.node? id = some node → graph.node? id' = some node' → node.op == node'.op → id = id'
  vars : graph.vars = base.vars
  declared : graph.inputs = base.inputs
  remaining : ∀ id node, graph.node? id = some node → ∃ original, base.node? id = some original
  constants : ∀ var value, (base.var var).kind = .constant value → graph.IsRead var →
    base.IsRead var

theorem Merging.skip (merging : Merging order front buckets base graph)
    (gone : graph.node? id = none) : Merging order (front ++ [id]) buckets base graph where
  toKeeping := merging.toKeeping.mono fun _ member => List.mem_append_left _ member
  orderly := merging.orderly
  pruned := merging.pruned
  free := merging.free
  covered other member node live := by
    rcases List.mem_append.mp member with member | member
    · exact merging.covered other member node live
    · rw [List.mem_singleton.mp member, gone] at live
      cases live
  unlike := merging.unlike
  vars := merging.vars
  declared := merging.declared
  remaining := merging.remaining
  constants := merging.constants

omit [Arithmetic α] in
theorem mem_bucket_keep_iff {key inputs : List VarId} {kept : NodeId} :
    kept ∈ bucket (Edit.keep buckets inputs id) key ↔
      kept ∈ bucket buckets key ∨ kept = id ∧ key = inputs := by
  refine ⟨mem_bucket_keep, ?_⟩
  simp only [bucket, Edit.keep, List.lookup_cons]
  rintro (member | ⟨rfl, rfl⟩)
  · split
    · rename_i same
      rw [beq_iff_eq.mp same] at member
      exact List.mem_append_left _ member
    · exact member
  · simp

/-- A node is kept if it differs from all that are kept under its inputs. -/
theorem Merging.keep (tests : SymmetricTests α) (merging : Merging order front buckets base graph)
    (live : graph.node? id = some node)
    (unlike : ∀ other ∈ bucket buckets node.inputs, ∀ content, graph.node? other = some content →
      ¬(content.op == node.op)) :
    Merging order (front ++ [id]) (Edit.keep buckets node.inputs id) base graph where
  toKeeping := merging.toKeeping.keep live
  orderly := merging.orderly
  pruned := merging.pruned
  free := merging.free
  covered other member content otherLive := by
    rcases List.mem_append.mp member with member | member
    · exact mem_bucket_keep_iff.mpr (Or.inl (merging.covered other member content otherLive))
    · cases List.mem_singleton.mp member
      cases live.symm.trans otherLive
      exact mem_bucket_keep_iff.mpr (Or.inr ⟨rfl, rfl⟩)
  unlike key first firstMem second secondMem one two oneLive twoLive same := by
    rcases mem_bucket_keep_iff.mp firstMem with firstOld | ⟨firstNew, keyEq⟩ <;>
      rcases mem_bucket_keep_iff.mp secondMem with secondOld | ⟨secondNew, keyEq'⟩
    · exact merging.unlike key first firstOld second secondOld one two oneLive twoLive same
    · cases live.symm.trans (secondNew ▸ twoLive)
      exact absurd same (unlike first (keyEq' ▸ firstOld) one oneLive)
    · cases live.symm.trans (firstNew ▸ oneLive)
      exact absurd (Op.beq_symm tests same) (unlike second (keyEq ▸ secondOld) two twoLive)
    · exact firstNew.trans secondNew.symm
  vars := merging.vars
  declared := merging.declared
  remaining := merging.remaining
  constants := merging.constants

theorem Merging.ne {key : List VarId} (distinct : order.Nodup)
    (split : order = front ++ duplicate :: back) (merging : Merging order front buckets base graph)
    (kept : survivor ∈ bucket buckets key) : survivor ≠ duplicate := by
  rintro rfl
  exact Precedes.irrefl distinct ⟨front, back, split, merging.front _ survivor kept⟩

/-- Nodes in front of a duplicate go on reading what they read. -/
theorem Merging.keeping_replaceAll (distinct : order.Nodup)
    (split : order = front ++ duplicate :: back) (merging : Merging order front buckets base graph)
    (live : graph.node? duplicate = some node) (kept : survivor ∈ bucket buckets node.inputs)
    (survivorLive : graph.node? survivor = some content) (same : content.op == node.op)
    (replaced : graph.replaceAll (node.outputs.zip content.outputs) = Except.ok changed) :
    Keeping order front buckets changed := by
  have inputs := (merging.inputs _ survivor kept content survivorLive).symm
  have formed := merging.orderly.formed
  have mirrors : Mirrors graph duplicate survivor := by
    refine ⟨⟨content, survivorLive⟩, ?_, fun _ _ _ _ => ⟨node, live⟩⟩
    intro first second firstLive secondLive
    cases live.symm.trans firstLive
    cases survivorLive.symm.trans secondLive
    exact inputs
  rcases mirrors.exists_replaceAll distinct split (merging.front _ survivor kept) merging.orderly
    merging.pruned merging.toKeeping (fun pair paired =>
      ⟨corresponds_of_mem_zip formed live survivorLive paired,
        types_of_mem_zip formed live survivorLive inputs same paired⟩) with ⟨_, answer, keeping⟩
  cases replaced.symm.trans answer
  exact keeping

/-- A node is gone when nobody reads an output of it any more. -/
theorem gone_of_replaceAll (formed : graph.Formed) (live : graph.node? duplicate = some node)
    (length : node.outputs.length = content.outputs.length) (pruned : changed.Pruned)
    (vars : changed.vars = graph.vars)
    (unread : ∀ pair ∈ node.outputs.zip content.outputs, ¬changed.IsRead pair.1) :
    changed.node? duplicate = none := by
  refine pruned.gone_of_unread fun var produced => ?_
  rcases producerId?_eq_some.mp produced with ⟨_, index, found⟩
  have kind := (producer?_eq_some.mp found).1
  rw [Dataflow.var, vars] at kind
  have output := formed.mem_outputs_of_kind live kind
  rcases List.mem_iff_getElem.mp output with ⟨position, inside, rfl⟩
  refine unread (_, content.outputs[position]) (List.mem_iff_getElem.mpr ⟨position, ?_, ?_⟩)
  · simpa [← length] using inside
  · exact List.getElem_zip

/-- A duplicate whose outputs have all been replaced is gone, and nodes in front of it go on reading
what they read. -/
theorem Merging.replaceAll (distinct : order.Nodup) (split : order = front ++ duplicate :: back)
    (merging : Merging order front buckets base graph) (live : graph.node? duplicate = some node)
    (kept : survivor ∈ bucket buckets node.inputs) (survivorLive : graph.node? survivor = some content)
    (same : content.op == node.op)
    (replaced : graph.replaceAll (node.outputs.zip content.outputs) = Except.ok changed) :
    Merging order (front ++ [duplicate]) buckets base changed := by
  have inputs := (merging.inputs _ survivor kept content survivorLive).symm
  have formed := merging.orderly.formed
  have keeping := merging.keeping_replaceAll distinct split live kept survivorLive same replaced
  have correspond : ∀ pair ∈ node.outputs.zip content.outputs,
      Corresponds graph duplicate survivor pair.1 pair.2 := fun pair paired =>
    corresponds_of_mem_zip formed live survivorLive paired
  -- The duplicate computes all old variables and the survivor all new ones, so no variable is both.
  rcases reads_of_replaceAll (fun pair paired other otherPaired equal => by
    rcases correspond pair paired with ⟨_, kind, _⟩
    rcases correspond other otherPaired with ⟨_, _, kind'⟩
    rw [← equal, kind] at kind'
    cases kind'
    exact merging.ne distinct split kept rfl) replaced with ⟨unread, reads⟩
  have vars := vars_replaceAll replaced
  have pruned := merging.pruned.replaceAll replaced
  have gone := gone_of_replaceAll formed live
    (length_outputs_of_beq formed live survivorLive inputs same) pruned vars unread
  have advanced : Merging order front buckets base changed := {
    toKeeping := keeping
    orderly := (merging.orderly.replaceAll replaced).1
    pruned := pruned
    free := not_hasDestroyers_replaceAll merging.free replaced
    covered := by
      intro id inFront after live'
      rcases live_of_replaceAll replaced live' with ⟨original, originalLive, _, _⟩
      have covered := merging.covered id inFront original originalLive
      rwa [keeping.inputs _ id covered after live']
    unlike := by
      intro key first firstMem second secondMem one two oneLive twoLive same
      rcases live_of_replaceAll replaced oneLive with ⟨_, oneLive, sameOne, _⟩
      rcases live_of_replaceAll replaced twoLive with ⟨_, twoLive, sameTwo, _⟩
      rw [← sameOne, ← sameTwo] at same
      exact merging.unlike key first firstMem second secondMem _ _ oneLive twoLive same
    vars := vars.trans merging.vars
    declared := (inputs_replaceAll replaced).trans merging.declared
    remaining := by
      intro id after live'
      rcases live_of_replaceAll replaced live' with ⟨original, originalLive, _⟩
      exact merging.remaining id original originalLive
    constants := by
      intro var value constant read
      rcases reads var read with before | ⟨pair, paired, rfl⟩
      · exact merging.constants var value constant before
      · rcases correspond pair paired with ⟨_, _, kind⟩
        rw [Dataflow.var, merging.vars, ← Dataflow.var, constant] at kind
        cases kind }
  exact advanced.skip gone

theorem mergeStep_merging {state next : Nat × Buckets} (tests : SymmetricTests α)
    (distinct : order.Nodup) (split : order = front ++ id :: back)
    (merging : Merging order front state.2 base before.graph)
    (ran : mergeStep state id before = .ok next after) :
    Merging order (front ++ [id]) next.2 base after.graph ∧ after.memory = before.memory := by
  have harmless := hasDestroyers_eq_false_iff.mp merging.free
  cases merges_of_mergeStep ran with
  | skip destructive =>
    refine ⟨merging.skip ?_, rfl⟩
    cases live : before.graph.node? id with
    | none => rfl
    | some node => exact absurd (destructive node live) (by simp [harmless id node live])
  | keep live unlike =>
    refine ⟨merging.keep tests live ?_, rfl⟩
    exact unlike.resolve_left (by simp [merging.free])
  | merge live kept survivorLive same replaced =>
    exact ⟨merging.replaceAll distinct split live kept survivorLive same replaced, rfl⟩

theorem mergeSteps_merging {state next : Nat × Buckets} (tests : SymmetricTests α)
    (distinct : order.Nodup) (split : order = front ++ back)
    (merging : Merging order front state.2 base before.graph)
    (ran : back.foldlM mergeStep state before = .ok next after) :
    Merging order order next.2 base after.graph ∧ after.memory = before.memory := by
  induction back generalizing front state before with
  | nil =>
    simp only [List.foldlM_nil, pure_eq_ok_iff] at ran
    rcases ran with ⟨rfl, rfl⟩
    simp only [List.append_nil] at split
    exact ⟨split ▸ merging, rfl⟩
  | cons id rest ih =>
    simp only [List.foldlM_cons, bind_eq_ok_iff] at ran
    rcases ran with ⟨middle, between, first, others⟩
    rcases mergeStep_merging tests distinct split merging first with ⟨merging', memory⟩
    rcases ih (by simpa using split) merging' others with ⟨final, memory'⟩
    exact ⟨final, memory'.trans memory⟩

end Nodes

section Merge

variable {order front back : List NodeId} {buckets : Buckets} {before after : Editing α} {id : NodeId}

theorem duplicateConstants_of_irredundant (irredundant : before.Irredundant) :
    duplicateConstants before.memory before.graph before.graph.liveVars [] = [] := by
  apply List.eq_nil_iff_forall_not_mem.mpr
  intro pair member
  rcases sameConstant_eq_true (sameConstant_of_mem member) with
    ⟨first, second, kind, kind', type, elements⟩
  rcases mem_of_mem_duplicateConstants member with ⟨firstMem, secondMem⟩
  apply duplicateConstants_apart nodup_liveVars (by simp) pair member pair member
  exact irredundant.constants pair.1 firstMem pair.2 (by simpa using secondMem) first second kind
    kind' type elements

/-- No node is like another one that is kept under its inputs. -/
theorem mergeStep_of_irredundant (irredundant : before.Irredundant) (distinct : order.Nodup)
    (split : order = front ++ id :: back) (keeping : Keeping order front buckets before.graph) :
    ∃ buckets', mergeStep (0, buckets) id before = .ok (0, buckets') before ∧
      Keeping order (front ++ [id]) buckets' before.graph := by
  have more : Keeping order (front ++ [id]) buckets before.graph :=
    keeping.mono fun _ member => List.mem_append_left _ member
  simp only [mergeStep, bind_of_ok (graph_run before)]
  cases live : before.graph.node? id with
  | none => exact ⟨buckets, rfl, more⟩
  | some node =>
    dsimp only
    split
    · exact ⟨buckets, rfl, more⟩
    · generalize found : (bucket buckets node.inputs).find? _ = survivor?
      cases survivor? with
      | none => exact ⟨_, rfl, keeping.keep live⟩
      | some survivor =>
        rcases survivor_of_find? found with ⟨kept, content, survivorLive, accepted⟩
        -- The survivor would be the node itself, which does not come before itself.
        have same := irredundant.nodes survivor id content node survivorLive live accepted
          (keeping.inputs _ survivor kept content survivorLive)
        have member := keeping.front _ survivor kept
        rw [same] at member
        exact absurd ⟨front, back, split, member⟩ (Precedes.irrefl distinct)

theorem mergeSteps_of_irredundant (irredundant : before.Irredundant) (distinct : order.Nodup)
    (split : order = front ++ back) (keeping : Keeping order front buckets before.graph) :
    ∃ buckets', back.foldlM mergeStep (0, buckets) before = .ok (0, buckets') before := by
  induction back generalizing front buckets with
  | nil => exact ⟨buckets, rfl⟩
  | cons id rest ih =>
    rcases mergeStep_of_irredundant irredundant distinct split keeping with ⟨next, ran, keeping'⟩
    rcases ih (by simpa using split) keeping' with ⟨last, others⟩
    exact ⟨last, (bind_of_ok ran).trans others⟩

/-- A graph in which nothing is there twice stays as it is. -/
theorem merge_of_irredundant (acyclic : before.graph.Acyclic) (irredundant : before.Irredundant) :
    merge before = .ok false before := by
  rcases acyclic.exists_order with ⟨order, ordered⟩
  have respects := respects_of_order ordered
  have constants : (mergeConstants : Edit α GraphError Nat) before = .ok 0 before := by
    rw [mergeConstants, bind_of_ok (get_run before)]
    simp only [duplicateConstants_of_irredundant irredundant]
    rfl
  have start : Keeping order [] [] before.graph :=
    ⟨respects.producers_first, by simp [bucket], by simp [bucket]⟩
  rcases mergeSteps_of_irredundant irredundant respects.distinct (List.nil_append _).symm start with
    ⟨buckets, nodes⟩
  refine mapError_eq_ok_iff.mpr ((bind_of_ok constants).trans ?_)
  refine (bind_of_ok (graph_run before)).trans ?_
  refine (bind_of_ok (ofChecked_eq_ok_iff.mpr ⟨ordered, rfl⟩)).trans ?_
  exact (bind_of_ok nodes).trans rfl

/-- Constants that are still read once duplicates have been replaced are all different. -/
theorem eq_of_sameConstant_of_isRead {changed : Dataflow α} (tests : SymmetricTests α)
    (formed : before.graph.Formed)
    (replaced : before.graph.replaceAll (duplicateConstants before.memory before.graph
      before.graph.liveVars []) = Except.ok changed) {var var' : VarId}
    (read : changed.IsRead var) (read' : changed.IsRead var')
    (same : sameConstant before.memory before.graph var var') : var = var' := by
  rcases reads_of_replaceAll (duplicateConstants_apart nodup_liveVars (by simp)) replaced with
    ⟨unread, reads⟩
  have live : ∀ var, changed.IsRead var → var ∈ before.graph.liveVars := by
    intro var read
    rcases reads var read with before | ⟨pair, member, rfl⟩
    · exact mem_liveVars.mpr ⟨formed.read_known var before, Or.inr (Or.inl before)⟩
    · simpa using (mem_of_mem_duplicateConstants member).2
  have unpaired : ∀ pair ∈ duplicateConstants before.memory before.graph before.graph.liveVars [],
      pair.1 ≠ var ∧ pair.1 ≠ var' := fun pair member =>
    ⟨fun equal => unread pair member (equal ▸ read), fun equal => unread pair member (equal ▸ read')⟩
  exact eq_of_sameConstant tests (live var read) (live var' read') unpaired same

/-- A pass that has gone over all nodes leaves nothing twice, if no constant was read twice at its
start. -/
theorem Merging.irredundant {base : Dataflow α} (respects : base.Respects .empty order)
    (merging : Merging order order buckets base after.graph)
    (inputs : ∀ input ∈ base.inputs, ∀ value, (base.var input).kind ≠ .constant value)
    (different : ∀ var var', base.IsRead var → base.IsRead var' →
      sameConstant after.memory after.graph var var' → var = var') : after.Irredundant := by
  have sameVar : ∀ var, after.graph.var var = base.var var := fun var => by
    rw [Dataflow.var, merging.vars, Dataflow.var]
  have covered : ∀ id node, after.graph.node? id = some node → id ∈ bucket buckets node.inputs := by
    intro id node live
    exact merging.covered id (respects.mem_iff.mpr (merging.remaining id node live)) node live
  have read : ∀ var ∈ after.graph.liveVars, ∀ value, (after.graph.var var).kind = .constant value →
      base.IsRead var := by
    intro var live value kind
    refine merging.constants var value (sameVar var ▸ kind) ?_
    refine merging.orderly.formed.isRead_of_constant live kind fun input declared value => ?_
    rw [merging.declared] at declared
    exact sameVar input ▸ inputs input declared value
  constructor
  · intro id id' node node' live live' same sameInputs
    have kept' := covered id' node' live'
    rw [← sameInputs] at kept'
    exact merging.unlike node.inputs id (covered id node live) id' kept' node node' live live' same
  · intro var live var' live' value value' kind kind' type elements
    exact different var var' (read var live value kind) (read var' live' value' kind')
      (sameConstant_of_forall₂ kind kind' type elements)

/-- After a merge of a graph that overwrites nothing and in which every node is needed nothing is there
twice, and to merge once more changes nothing. -/
theorem irredundant_of_merge {changed : Bool} (tests : SymmetricTests α)
    (formed : before.graph.Formed) (pruned : before.graph.Pruned)
    (free : before.graph.hasDestroyers = false)
    (inputs : ∀ input ∈ before.graph.inputs, ∀ value,
      (before.graph.var input).kind ≠ .constant value)
    (ran : merge before = .ok changed after) :
    after.Irredundant ∧ merge after = .ok false after := by
  rcases bind_eq_ok_iff.mp (mapError_eq_ok_iff.mp ran) with ⟨constants, middle, merged, ran⟩
  rw [mergeConstants, bind_of_ok (get_run before)] at merged
  rcases replaceAll_of_mergeEach free merged with ⟨graph, replaced, rfl⟩
  rw [bind_of_ok (graph_run _)] at ran
  rcases bind_eq_ok_iff.mp ran with ⟨order, middle, ordered, ran⟩
  rcases ofChecked_eq_ok_iff.mp ordered with ⟨answer, rfl⟩
  rcases bind_eq_ok_iff.mp ran with ⟨result, final, nodes, counted⟩
  simp only [pure_eq_ok_iff] at counted
  rcases counted with ⟨_, rfl⟩
  have respects := respects_of_order answer
  have orderly : graph.Orderly := by
    refine ⟨?_, acyclic_of_order answer⟩
    exact Checked.foldlM_invariant Formed (fun _ _ _ _ formed replaced => formed.replace replaced)
      formed replaced
  -- The merge of nodes starts where that of constants ends: `Merging` speaks of `graph`, not of
  -- what there was before.
  have start : Merging order [] [] graph graph := {
    sorted := respects.producers_first
    front := by simp [bucket]
    inputs := by simp [bucket]
    orderly := orderly
    pruned := pruned.replaceAll replaced
    free := not_hasDestroyers_replaceAll free replaced
    covered := by simp
    unlike := by simp [bucket]
    vars := rfl
    declared := rfl
    remaining := fun _ node live => ⟨node, live⟩
    constants := fun _ _ _ read => read }
  rcases mergeSteps_merging tests respects.distinct (List.nil_append _).symm start nodes with
    ⟨merging, memory⟩
  have vars : graph.vars = before.graph.vars := vars_replaceAll replaced
  have irredundant : final.Irredundant := by
    refine merging.irredundant respects (fun input declared value => ?_)
      fun var var' read read' same => ?_
    · rw [inputs_replaceAll replaced] at declared
      rw [Dataflow.var, vars]
      exact inputs input declared value
    · rw [memory, sameConstant_congr (merging.vars.trans vars)] at same
      exact eq_of_sameConstant_of_isRead tests formed replaced read read' same
  exact ⟨irredundant, merge_of_irredundant merging.orderly.acyclic irredundant⟩

end Merge

end Edit

namespace Dataflow

/-- The product of two sums of a vector with one, each with a constant of its own. -/
def shiftedTwice : Dataflow Float where
  vars := #[⟨ArrayType.ofRank .float64 1, .input, some "x"⟩,
    ⟨ArrayType.scalar .float64, .constant ⟨.float64, [], ⟨0⟩⟩, none⟩,
    ⟨ArrayType.scalar .float64, .constant ⟨.float64, [], ⟨1⟩⟩, none⟩,
    ⟨ArrayType.ofRank .float64 1, .output ⟨0⟩ 0, none⟩,
    ⟨ArrayType.ofRank .float64 1, .output ⟨1⟩ 0, none⟩,
    ⟨ArrayType.ofRank .float64 1, .output ⟨2⟩ 0, none⟩]
  nodes := #[some ⟨.elementwise .add none, [⟨0⟩, ⟨1⟩], [⟨3⟩]⟩,
    some ⟨.elementwise .add none, [⟨0⟩, ⟨2⟩], [⟨4⟩]⟩,
    some ⟨.elementwise .mul none, [⟨3⟩, ⟨4⟩], [⟨5⟩]⟩]
  inputs := [⟨0⟩]
  outputs := [⟨5⟩]
  guarded := []

/-- The square of the sum. -/
def shiftedOnce : Dataflow Float :=
  { shiftedTwice with
    nodes := #[some ⟨.elementwise .add none, [⟨0⟩, ⟨1⟩], [⟨3⟩]⟩, none,
      some ⟨.elementwise .mul none, [⟨3⟩, ⟨3⟩], [⟨5⟩]⟩] }

end Dataflow

namespace Edit

open Dataflow

/-- The second sum is merged once its constant is. -/
theorem irredundant_of_merge_shiftedTwice :
    merge ⟨shiftedTwice, ⟨#[#[1], #[1]], #[]⟩, []⟩ =
        .ok true ⟨shiftedOnce, ⟨#[#[1], #[1]], #[]⟩, []⟩ ∧
      merge ⟨shiftedOnce, ⟨#[#[1], #[1]], #[]⟩, []⟩ =
        .ok false ⟨shiftedOnce, ⟨#[#[1], #[1]], #[]⟩, []⟩ := by
  have pruned : shiftedTwice.prune = shiftedTwice := rfl
  have inputs : ∀ input ∈ shiftedTwice.inputs, ∀ value,
      (shiftedTwice.var input).kind ≠ .constant value := by
    simp [shiftedTwice, Dataflow.var]
  have pairs : duplicateConstants (⟨#[#[1], #[1]], #[]⟩ : Memory Float) shiftedTwice
      shiftedTwice.liveVars [] = [(⟨2⟩, ⟨1⟩)] := by decide
  have ran : merge ⟨shiftedTwice, ⟨#[#[1], #[1]], #[]⟩, []⟩ =
      .ok true ⟨shiftedOnce, ⟨#[#[1], #[1]], #[]⟩, []⟩ := by
    refine mapError_eq_ok_iff.mpr ?_
    rw [mergeConstants, bind_assoc, bind_of_ok (get_run _)]
    dsimp only
    rw [pairs]
    cbv
  exact ⟨ran, (irredundant_of_merge symmetricTests_float (by decide) (pruned ▸ pruned_prune) rfl inputs
    ran).2⟩

end Edit

end ArrayGraph
