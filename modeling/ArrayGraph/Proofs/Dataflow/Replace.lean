import Mathlib
import ArrayGraph.Proofs.Dataflow.Acyclic
import ArrayGraph.Proofs.Dataflow.Order

/-!
# When a variable can be replaced

To let every reader of a variable read another one closes a cycle exactly if some reader of the old
variable is needed to compute the new one. Redirecting all readers at once changes the paths between
them as well, but along a path from the producer of the new variable the first reader of the old one
leads straight back to where the path began. So the check that is made before the edit finds all
cycles that there would be after it, and no others.

A replacement that goes through leaves the part of the redirected graph that its outputs depend on, and
if the two variables stand for the same array then so does every output before and after.
-/

namespace ArrayGraph.Dataflow

open Relation

variable {α : Type} {graph later : Dataflow α} {old new var : VarId} {id source : NodeId}
  {node : Node α}

/-- A graph is the part of another one that the outputs depend on. -/
structure IsNeededPart (part whole : Dataflow α) : Prop where
  vars : part.vars = whole.vars
  inputs : part.inputs = whole.inputs
  outputs : part.outputs = whole.outputs
  guarded : part.guarded = whole.guarded
  places : part.nodes.size = whole.nodes.size
  node : ∀ id node, part.node? id = some node ↔
    whole.node? id = some node ∧ ∃ output ∈ whole.outputs, whole.ComputedFrom output id

theorem isNeededPart_prune (graph : Dataflow α) : graph.prune.IsNeededPart graph where
  vars := rfl
  inputs := rfl
  outputs := rfl
  guarded := rfl
  places := by simp [Dataflow.prune]
  node id node := by rw [node?_prune, mem_ancestorsOf]

section Cycles

theorem readsFrom_redirect_new (live : graph.node? id = some node) (readsOld : old ∈ node.inputs)
    (produced : graph.producerId? new = some source) :
    (graph.redirect old new).ReadsFrom id source := by
  refine readsFrom_iff.mpr ⟨_, node?_redirect_eq_some.mpr ⟨node, live, rfl⟩, new, ?_, ?_⟩
  · exact List.mem_map.mpr ⟨old, readsOld, if_pos rfl⟩
  · rw [producerId?_redirect, produced]

theorem readsFrom_redirect_of_ne (live : graph.node? id = some node) (member : var ∈ node.inputs)
    (different : var ≠ old) (produced : graph.producerId? var = some source) :
    (graph.redirect old new).ReadsFrom id source := by
  refine readsFrom_iff.mpr ⟨_, node?_redirect_eq_some.mpr ⟨node, live, rfl⟩, var, ?_, ?_⟩
  · exact List.mem_map.mpr ⟨var, member, if_neg different⟩
  · rw [producerId?_redirect, produced]

/-- A path from the producer of the new variable is still there, unless it has been closed. -/
theorem path_or_cycle_redirect {producer last : NodeId}
    (produced : graph.producerId? new = some producer)
    (path : ReflTransGen graph.ReadsFrom producer last) :
    ReflTransGen (graph.redirect old new).ReadsFrom producer last ∨
      TransGen (graph.redirect old new).ReadsFrom producer producer := by
  induction path with
  | refl => exact Or.inl ReflTransGen.refl
  | tail _ reads ih =>
    rcases ih with before | cycle
    · rcases readsFrom_iff.mp reads with ⟨node, live, input, member, inputProduced⟩
      by_cases same : input = old
      · subst same
        exact Or.inr (TransGen.tail' before (readsFrom_redirect_new live member produced))
      · exact Or.inl (before.tail (readsFrom_redirect_of_ne live member same inputProduced))
    · exact Or.inr cycle

/-- Redirecting closes a cycle exactly if the new variable is computed from a reader of the old one. -/
theorem Acyclic.redirect_iff (acyclic : graph.Acyclic) : (graph.redirect old new).Acyclic ↔
    ∀ id node, graph.node? id = some node → old ∈ node.inputs → ¬graph.ComputedFrom new id := by
  constructor
  · rintro acyclic' id node live readsOld ⟨producer, produced, path⟩
    rcases path_or_cycle_redirect produced path with path | cycle
    · exact acyclic' id (TransGen.head' (readsFrom_redirect_new live readsOld produced) path)
    · exact acyclic' producer cycle
  · intro apart
    exact acyclic.redirect fun id node live readsOld member =>
      apart id node live readsOld (mem_ancestors.mp member)

end Cycles

section Check

variable [Arithmetic α]

omit [Arithmetic α] in
/-- A reader of the old variable from which the new one is computed is found by the check. -/
theorem checkReplacement_eq_raise (oldKnown : old.index < graph.vars.size)
    (newKnown : new.index < graph.vars.size) (same : graph.type old = graph.type new)
    (live : graph.node? id = some node) (readsOld : old ∈ node.inputs)
    (computed : graph.ComputedFrom new id) :
    graph.checkReplacement old new = Checked.raise (.cycle old new) := by
  unfold checkReplacement
  rw [requireVar_eq_ok.mpr oldKnown, Checked.ok_bind, requireVar_eq_ok.mpr newKnown, Checked.ok_bind,
    if_neg (not_not.mpr same)]
  refine if_pos (List.any_eq_true.mpr ⟨(id, node), mem_liveNodes.mpr live, ?_⟩)
  simp [readsOld, mem_ancestors.mpr computed]

theorem WellFormed.checkReplacement_of_apart (wellFormed : graph.WellFormed)
    (oldKnown : old.index < graph.vars.size) (newKnown : new.index < graph.vars.size)
    (same : graph.type old = graph.type new)
    (apart : ∀ id node, graph.node? id = some node → old ∈ node.inputs →
      ¬graph.ComputedFrom new id) : graph.checkReplacement old new = Except.ok () := by
  refine Dataflow.checkReplacement_of_apart oldKnown newKnown same fun id node live readsOld => ?_
  refine ⟨apart id node live readsOld, fun output => apart id node live readsOld ?_⟩
  exact ⟨id, (wellFormed.mem_outputs_iff newKnown live).mp output, ReflTransGen.refl⟩

end Check

section Evaluation

variable [Arithmetic α] {hosts : Meaning α} {roots : VarId → Option (Tensor α)} {tensor : Tensor α}

/-- Reading one variable in the place of another that stands for the same array changes nothing. -/
theorem evaluates_redirect_iff
    (apart : ∀ id node, graph.node? id = some node → old ∈ node.inputs → ¬graph.ComputedFrom new id)
    (stands : ∀ tensor,
      graph.Evaluates hosts roots old tensor ↔ graph.Evaluates hosts roots new tensor) :
    (graph.redirect old new).Evaluates hosts roots var tensor ↔
      graph.Evaluates hosts roots var tensor := by
  constructor
  · intro evaluates
    induction evaluates with
    | root unproduced given =>
      rw [producerNode?_redirect, Option.map_eq_none_iff] at unproduced
      exact .root unproduced given
    | output values produced _ computed selected ih =>
      rw [producerNode?_redirect, Option.map_eq_some_iff] at produced
      rcases produced with ⟨⟨node, index⟩, produced, same⟩
      cases same
      refine (Evaluates.output_iff_forall₂ produced).mpr ⟨_, _, ?_, computed, selected⟩
      rw [substitute, List.map_map, List.forall₂_map_right_iff, List.forall₂_same]
      intro input member
      have substituted := ih (if input = old then new else input)
        (List.mem_map.mpr ⟨input, member, rfl⟩)
      by_cases isOld : input = old
      · simp only [isOld, if_pos, Function.comp_apply] at substituted ⊢
        exact (stands _).mpr substituted
      · simpa [isOld] using substituted
  · intro evaluates
    induction evaluates with
    | root unproduced given =>
      exact .root (by rw [producerNode?_redirect, unproduced, Option.map_none]) given
    | @output var node index values results tensor produced operands computed selected ih =>
      have produced' : (graph.redirect old new).producerNode? var =
          some ({ node with inputs := substitute old new node.inputs }, index) := by
        rw [producerNode?_redirect, produced, Option.map_some]
      refine (Evaluates.output_iff_forall₂ produced').mpr ⟨_, results, ?_, computed, selected⟩
      rw [substitute, List.forall₂_map_left_iff, List.forall₂_map_right_iff, List.forall₂_same]
      intro input member
      by_cases isOld : input = old
      · subst isOld
        rw [if_pos rfl]
        exact (evaluates_redirect_iff_of_apart apart).mpr ((stands _).mp (operands input member))
      · rw [if_neg isOld]
        exact ih input member

/-- An output stands for the same array after a replacement as before, if the two variables do. -/
theorem evaluates_output_of_redirect
    (apart : ∀ id node, graph.node? id = some node → old ∈ node.inputs → ¬graph.ComputedFrom new id)
    (stands : ∀ tensor,
      graph.Evaluates hosts roots old tensor ↔ graph.Evaluates hosts roots new tensor)
    (output : var ∈ graph.outputs) :
    (graph.redirect old new).prune.Evaluates hosts roots (if var = old then new else var) tensor ↔
      graph.Evaluates hosts roots var tensor := by
  have output' : (if var = old then new else var) ∈ (graph.redirect old new).outputs :=
    List.mem_map.mpr ⟨var, output, rfl⟩
  rw [evaluates_prune_iff fun id produced =>
    mem_ancestorsOf.mpr ⟨_, output', id, produced, ReflTransGen.refl⟩,
    evaluates_redirect_iff apart stands]
  by_cases isOld : var = old
  · rw [if_pos isOld, isOld, stands]
  · rw [if_neg isOld]

end Evaluation

variable [Arithmetic α]

/-- To replace a variable by another one of its type is refused exactly if redirecting its readers
closes a cycle. Otherwise what is left is the part of the redirected graph that its outputs depend on,
and outputs stand for what they stood for if the two variables stand for the same array. -/
theorem replace_exact (graph : Dataflow α) (wellFormed : graph.WellFormed) (acyclic : graph.Acyclic)
    (oldKnown : old.index < graph.vars.size) (newKnown : new.index < graph.vars.size)
    (same : graph.type old = graph.type new) (different : old ≠ new) :
    (graph.replace old new = Checked.raise (.cycle old new) ↔
        ∃ id, TransGen (graph.redirect old new).ReadsFrom id id) ∧
      ((¬∃ id, TransGen (graph.redirect old new).ReadsFrom id id) →
        ∃ later, graph.replace old new = Except.ok later ∧
          later.IsNeededPart (graph.redirect old new) ∧
          ∀ hosts roots, (∀ tensor, graph.Evaluates hosts roots old tensor ↔
              graph.Evaluates hosts roots new tensor) →
            ∀ (index : Nat) output, graph.outputs[index]? = some output →
              ∃ output', later.outputs[index]? = some output' ∧ ∀ tensor,
                later.Evaluates hosts roots output' tensor ↔
                  graph.Evaluates hosts roots output tensor) := by
  have cycles : (¬∃ id, TransGen (graph.redirect old new).ReadsFrom id id) ↔
      ∀ id node, graph.node? id = some node → old ∈ node.inputs → ¬graph.ComputedFrom new id := by
    rw [← acyclic.redirect_iff, not_exists]
    rfl
  refine ⟨⟨fun refused => ?_, fun cycle => ?_⟩, fun none => ?_⟩
  · by_contra none
    have checked := wellFormed.checkReplacement_of_apart oldKnown newKnown same (cycles.mp none)
    simp [replace, different, checked, Checked.raise] at refused
  · have reader : ∃ id node, graph.node? id = some node ∧ old ∈ node.inputs ∧
        graph.ComputedFrom new id := by
      by_contra apart
      exact cycles.mpr (by simpa using apart) cycle
    rcases reader with ⟨id, node, live, readsOld, computed⟩
    rw [replace, if_neg different,
      checkReplacement_eq_raise oldKnown newKnown same live readsOld computed]
    rfl
  · have apart := cycles.mp none
    have checked := wellFormed.checkReplacement_of_apart oldKnown newKnown same apart
    refine ⟨(graph.redirect old new).prune, by simp [replace, different, checked],
      isNeededPart_prune _, fun hosts roots stands index output found => ?_⟩
    refine ⟨if output = old then new else output, ?_, fun tensor =>
      evaluates_output_of_redirect apart stands (List.mem_of_getElem? found)⟩
    simp [prune, redirect, substitute, found]

/-- The exponential of a negated vector, and the negated vector. A second negation is not read yet. -/
def negatedAgain : Dataflow Float where
  vars := #[⟨ArrayType.ofRank .float64 1, .input, some "x"⟩,
    ⟨ArrayType.ofRank .float64 1, .output ⟨0⟩ 0, none⟩,
    ⟨ArrayType.ofRank .float64 1, .output ⟨1⟩ 0, none⟩,
    ⟨ArrayType.ofRank .float64 1, .output ⟨2⟩ 0, none⟩]
  nodes := #[some ⟨.elementwise .neg none, [⟨0⟩], [⟨1⟩]⟩,
    some ⟨.elementwise .exp none, [⟨1⟩], [⟨2⟩]⟩,
    some ⟨.elementwise .neg none, [⟨0⟩], [⟨3⟩]⟩]
  inputs := [⟨0⟩]
  outputs := [⟨2⟩, ⟨1⟩]
  guarded := []

/-- What is left once the second negation stands in for the first. -/
def negatedInstead : Dataflow Float :=
  { negatedAgain with
    nodes := #[none, some ⟨.elementwise .exp none, [⟨3⟩], [⟨2⟩]⟩,
      some ⟨.elementwise .neg none, [⟨0⟩], [⟨3⟩]⟩]
    outputs := [⟨2⟩, ⟨3⟩] }

/-- The negation can be replaced by the other one, but not by its own exponential. -/
theorem replace_exact_negatedAgain :
    negatedAgain.WellFormed ∧ negatedAgain.Acyclic ∧
      negatedAgain.replace ⟨1⟩ ⟨2⟩ = Checked.raise (.cycle ⟨1⟩ ⟨2⟩) ∧
      negatedAgain.replace ⟨1⟩ ⟨3⟩ = Except.ok negatedInstead ∧
      ∀ hosts roots tensor, negatedInstead.Evaluates hosts roots ⟨2⟩ tensor ↔
        negatedAgain.Evaluates hosts roots ⟨2⟩ tensor := by
  have wellFormed : negatedAgain.WellFormed := by decide
  have ordered : negatedAgain.order .empty = Except.ok [⟨0⟩, ⟨1⟩, ⟨2⟩] := by cbv
  have acyclic := acyclic_of_order ordered
  have exact := fun new (known : new.index < 4) (type : negatedAgain.type ⟨1⟩ = negatedAgain.type new)
      (different : ⟨1⟩ ≠ new) =>
    replace_exact negatedAgain wellFormed acyclic (by decide) known type different
  refine ⟨wellFormed, acyclic, ?_, ?_⟩
  · have live : negatedAgain.node? ⟨1⟩ = some ⟨.elementwise .exp none, [⟨1⟩], [⟨2⟩]⟩ := rfl
    have produced : negatedAgain.producerId? ⟨2⟩ = some ⟨1⟩ := rfl
    exact (exact ⟨2⟩ (by decide) rfl (by decide)).1.mpr
      ⟨⟨1⟩, TransGen.single (readsFrom_redirect_new live (by decide) produced)⟩
  · have ordered' : (negatedAgain.redirect ⟨1⟩ ⟨3⟩).order .empty = Except.ok [⟨0⟩, ⟨2⟩, ⟨1⟩] := by cbv
    have answer : negatedAgain.replace ⟨1⟩ ⟨3⟩ = Except.ok negatedInstead := by cbv
    rcases (exact ⟨3⟩ (by decide) rfl (by decide)).2 (not_exists.mpr (acyclic_of_order ordered')) with
      ⟨later, answer', _, evaluates⟩
    rw [answer] at answer'
    cases answer'
    refine ⟨answer, fun hosts roots => ?_⟩
    have stands : ∀ tensor, negatedAgain.Evaluates hosts roots ⟨1⟩ tensor ↔
        negatedAgain.Evaluates hosts roots ⟨3⟩ tensor := by
      intro tensor
      have first : negatedAgain.producerNode? ⟨1⟩ =
          some (⟨.elementwise .neg none, [⟨0⟩], [⟨1⟩]⟩, 0) := rfl
      have second : negatedAgain.producerNode? ⟨3⟩ =
          some (⟨.elementwise .neg none, [⟨0⟩], [⟨3⟩]⟩, 0) := rfl
      exact (Evaluates.output_iff first).trans (Evaluates.output_iff second).symm
    rcases evaluates hosts roots stands 0 ⟨2⟩ rfl with ⟨output, found, same⟩
    cases found
    exact same

end ArrayGraph.Dataflow
