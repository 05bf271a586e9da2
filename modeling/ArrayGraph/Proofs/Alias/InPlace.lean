import ArrayGraph.Proofs.Alias.Valid

/-!
# Destructive forms of nodes

With a node in its destructive form, the node's output lives in the storage of one of its inputs.
Nothing else about what is computed from what changes. Storage that was one remains one, and what
overwrites it still does, so each order in which the graph with the destructive forms can be run is
one in which the graph without them can be run, except that protection does not carry back: an
output that owns its storage may be guarded, and owns it no longer once its node is destructive. This
cannot happen where nodes are given their destructive forms in an order in which they could run.
-/

namespace ArrayGraph

open Relation

variable {α : Type}

namespace Op

variable {op variant : Op α} {position : Nat}

/-- Elementwise operations have destructive forms, as far as they are not destructive already. -/
theorem destructiveVariant?_eq_some : op.destructiveVariant? position = some variant ↔
    ∃ function : ScalarFunction, op = .elementwise function none ∧ position < function.arity ∧
      variant = .elementwise function (some position) := by
  cases op with
  | elementwise function target =>
    cases target with
    | none => by_cases inside : position < function.arity <;> simp [destructiveVariant?, inside, eq_comm]
    | some target => simp [destructiveVariant?]
  | _ => simp [destructiveVariant?]

end Op

namespace Dataflow

variable {graph middle trial later : Dataflow α} {id reader : NodeId} {var member root : VarId}
  {order : List NodeId}

/-- The same graph but for some nodes that are in their destructive form now. -/
structure MoreInPlace (graph later : Dataflow α) : Prop where
  vars : later.vars = graph.vars
  inputs : later.inputs = graph.inputs
  outputs : later.outputs = graph.outputs
  guarded : later.guarded = graph.guarded
  size : later.nodes.size = graph.nodes.size
  node : ∀ id, later.node? id = graph.node? id ∨ ∃ node position variant,
    graph.node? id = some node ∧ node.op.destructiveVariant? position = some variant ∧
      later.node? id = some { node with op := variant }

namespace MoreInPlace

theorem refl (graph : Dataflow α) : graph.MoreInPlace graph :=
  ⟨rfl, rfl, rfl, rfl, rfl, fun _ => Or.inl rfl⟩

theorem trans (first : graph.MoreInPlace middle) (second : middle.MoreInPlace later) :
    graph.MoreInPlace later where
  vars := second.vars.trans first.vars
  inputs := second.inputs.trans first.inputs
  outputs := second.outputs.trans first.outputs
  guarded := second.guarded.trans first.guarded
  size := second.size.trans first.size
  node id := by
    rcases second.node id with same | ⟨node, position, variant, live, found, changed⟩
    · rw [same]
      exact first.node id
    rcases first.node id with same | ⟨_, _, _, _, found', changed'⟩
    · exact Or.inr ⟨node, position, variant, same ▸ live, found, changed⟩
    · -- A destructive form has no destructive form.
      rcases Op.destructiveVariant?_eq_some.mp found' with ⟨_, _, _, rfl⟩
      cases live.symm.trans changed'
      cases found

theorem of_replaceNodeOp [Arithmetic α] {node : Node α} {position : Nat} {variant : Op α}
    (live : graph.node? id = some node)
    (found : node.op.destructiveVariant? position = some variant)
    (answer : graph.replaceNodeOp id variant = Except.ok later) : graph.MoreInPlace later := by
  rcases replaceNodeOp_eq_ok answer with ⟨node', live', _, rfl⟩
  cases live.symm.trans live'
  refine ⟨rfl, rfl, rfl, rfl, by simp, fun other => ?_⟩
  rw [node?_setOp live]
  by_cases same : other = id
  · exact Or.inr ⟨node, position, variant, same ▸ live, found, if_pos same⟩
  · exact Or.inl (if_neg same)

variable (more : graph.MoreInPlace later)
include more

theorem var_eq (var : VarId) : later.var var = graph.var var := by
  simp only [Dataflow.var, more.vars]

theorem type_eq : later.type = graph.type := by
  funext var
  simp only [Dataflow.type, more.var_eq]

theorem isProtected_eq (root : VarId) : later.isProtected root = graph.isProtected root := by
  simp only [isProtected, isFixed, more.guarded, more.inputs, more.var_eq]

/-- Nodes keep what they read and what they compute. -/
theorem exists_live_iff (id : NodeId) (ports : List VarId → List VarId → Prop) :
    (∃ node, later.node? id = some node ∧ ports node.inputs node.outputs) ↔
      ∃ node, graph.node? id = some node ∧ ports node.inputs node.outputs := by
  rcases more.node id with same | ⟨node, _, variant, live, _, changed⟩
  · rw [same]
  · simp [live, changed]

/-- A node with views or destructive already stays what it is. -/
theorem node?_eq {node : Node α} (live : graph.node? id = some node)
    (maps : node.op.viewMap ++ node.op.destroyMap ≠ []) : later.node? id = some node := by
  rcases more.node id with same | ⟨other, position, variant, live', found, _⟩
  · exact same.trans live
  · cases live.symm.trans live'
    rcases Op.destructiveVariant?_eq_some.mp found with ⟨_, plain, _, _⟩
    exact absurd (by simp [plain, Op.viewMap, Op.destroyMap]) maps

theorem producerId?_eq (var : VarId) : later.producerId? var = graph.producerId? var := by
  apply Option.ext
  intro id
  simp only [producerId?_eq_some, producer?_eq_some, more.var_eq]
  rw [exists_comm, exists_comm (α := Node α)]
  refine exists_congr fun index => ?_
  simp only [exists_and_left]
  exact and_congr_right fun _ => by
    simpa using more.exists_live_iff id fun _ _ => True

theorem readsFrom_eq : later.ReadsFrom = graph.ReadsFrom := by
  funext reader source
  apply propext
  simp only [readsFrom_iff, more.producerId?_eq]
  exact more.exists_live_iff _ fun inputs _ =>
    ∃ input ∈ inputs, graph.producerId? input = some source

theorem computedFrom_iff : later.ComputedFrom var id ↔ graph.ComputedFrom var id := by
  simp only [ComputedFrom, more.producerId?_eq, more.readsFrom_eq]

theorem perm_liveIds : later.liveIds.Perm graph.liveIds := by
  refine (List.perm_ext_iff_of_nodup nodup_liveIds nodup_liveIds).mpr fun id => ?_
  rw [mem_liveIds, mem_liveIds]
  simpa using more.exists_live_iff id fun _ _ => True

theorem acyclic (acyclic : graph.Acyclic) : later.Acyclic :=
  acyclic.mono fun _ _ reads => more.readsFrom_eq ▸ reads

section Storage

theorem livesIn {source : VarId} (lives : graph.LivesIn var source) : later.LivesIn var source := by
  rcases storageSource?_eq_some.mp lives with ⟨id, node, index, input, produced, mapped, found⟩
  rcases producer?_eq_some.mp produced with ⟨kind, live⟩
  have maps : node.op.viewMap ++ node.op.destroyMap ≠ [] := by
    intro empty
    simp [empty] at mapped
  exact storageSource?_eq_some.mpr ⟨id, node, index, input,
    producer?_eq_some.mpr ⟨(more.var_eq var).symm ▸ kind, more.node?_eq live maps⟩, mapped, found⟩

/-- What is of its own later was so before. -/
theorem storageSource?_eq_none (owner : later.storageSource? var = none) :
    graph.storageSource? var = none := by
  by_contra lodges
  rcases Option.ne_none_iff_exists'.mp lodges with ⟨source, lives⟩
  cases owner.symm.trans (more.livesIn lives)

theorem aliasRoot_aliasRoot (acyclic : graph.Acyclic) (var : VarId) :
    later.aliasRoot (graph.aliasRoot var) = later.aliasRoot var := by
  induction var using acyclic.storage_induction with
  | owner var ended => rw [aliasRoot_of_none ended]
  | lodger var source lives ih =>
    rw [acyclic.aliasRoot_eq lives, (more.acyclic acyclic).aliasRoot_eq (more.livesIn lives), ih]

theorem livesIn_cases {source : VarId} (lives : later.LivesIn var source) :
    graph.LivesIn var source ∨ ∃ id node, graph.producerId? var = some id ∧
      later.node? id = some node ∧ later.node? id ≠ graph.node? id ∧ source ∈ overwritten node := by
  rcases storageSource?_eq_some.mp lives with ⟨id, node, index, input, produced, mapped, found⟩
  rcases producer?_eq_some.mp produced with ⟨kind, live⟩
  rcases more.node id with same | ⟨content, position, variant, contentLive, converted, changed⟩
  · exact Or.inl (storageSource?_eq_some.mpr ⟨id, node, index, input,
      producer?_eq_some.mpr ⟨more.var_eq var ▸ kind, same ▸ live⟩, mapped, found⟩)
  · rcases Op.destructiveVariant?_eq_some.mp converted with ⟨function, plain, _, rfl⟩
    cases live.symm.trans changed
    have target : input = position := by
      simp only [Op.viewMap, Op.destroyMap, List.nil_append, lookup_cons_ite] at mapped
      split at mapped
      · exact (Option.some.inj mapped).symm
      · cases mapped
    refine Or.inr ⟨id, _, ?_, live, ?_, ?_⟩
    · rw [← more.producerId?_eq]
      exact producerId?_eq_some.mpr ⟨_, index, produced⟩
    · rw [live, contentLive]
      intro same
      have sameOp := congrArg Node.op (Option.some.inj same)
      simp [plain] at sameOp
    · simpa [overwritten, Op.destroyMap, ← target] using found

/-- A variable is left in the storage it was in, or lives in storage that a node which is destructive
only now overwrites. -/
theorem aliasRoot_cases (acyclic : graph.Acyclic) (var : VarId) :
    later.aliasRoot var = graph.aliasRoot var ∨
      ∃ id, later.node? id ≠ graph.node? id ∧ later.Overwrites id (later.aliasRoot var) := by
  have acyclic' := more.acyclic acyclic
  induction var using acyclic'.storage_induction with
  | owner var ended =>
    exact Or.inl (by rw [aliasRoot_of_none ended,
      aliasRoot_of_none (more.storageSource?_eq_none ended)])
  | lodger var source lives ih =>
    rw [acyclic'.aliasRoot_eq lives]
    rcases more.livesIn_cases lives with before | ⟨id, node, _, live, changed, target⟩
    · rw [acyclic.aliasRoot_eq before]
      exact ih
    · exact Or.inr ⟨id, changed, node, live, source, target, rfl⟩

/-- What is computed from unchanged nodes only stays in the storage it was in. -/
theorem aliasRoot_eq (acyclic : graph.Acyclic) (var : VarId)
    (unchanged : ∀ id, graph.ComputedFrom var id → later.node? id = graph.node? id) :
    later.aliasRoot var = graph.aliasRoot var := by
  have acyclic' := more.acyclic acyclic
  induction var using acyclic'.storage_induction with
  | owner var ended =>
    rw [aliasRoot_of_none ended, aliasRoot_of_none (more.storageSource?_eq_none ended)]
  | lodger var source lives ih =>
    rcases more.livesIn_cases lives with before | ⟨id, _, produced, _, changed, _⟩
    · rw [acyclic'.aliasRoot_eq lives, acyclic.aliasRoot_eq before]
      exact ih fun id computed => unchanged id (before.computedFrom computed)
    · exact absurd (unchanged id ⟨id, produced, ReflTransGen.refl⟩) changed

end Storage

section Order

theorem observes (observes : graph.Observes reader member) : later.Observes reader member := by
  rcases observes with ⟨node, live, view, input⟩
  rcases more.node reader with same | ⟨node', _, variant, live', found, changed⟩
  · exact ⟨node, same.trans live, view, input⟩
  · cases live.symm.trans live'
    rcases Op.destructiveVariant?_eq_some.mp found with ⟨_, _, _, rfl⟩
    exact ⟨_, changed, by simp [Op.isPureView, Op.viewMap], input⟩

theorem overwrites (acyclic : graph.Acyclic) (overwrites : graph.Overwrites id root) :
    later.Overwrites id (later.aliasRoot root) := by
  rcases overwrites with ⟨node, live, target, written, rfl⟩
  have maps : node.op.viewMap ++ node.op.destroyMap ≠ [] := by
    intro empty
    simp [overwritten, (List.append_eq_nil_iff.mp empty).2] at written
  exact ⟨node, more.node?_eq live maps, target, written, (more.aliasRoot_aliasRoot acyclic target).symm⟩

/-- An order that suits more destructive nodes suits fewer, apart from what protection is about. -/
theorem safe (acyclic : graph.Acyclic) (safe : later.Safe order)
    (unprotected : ∀ destroyer root, graph.Overwrites destroyer root → ¬graph.isProtected root) :
    graph.Safe order where
  complete := safe.complete.trans more.perm_liveIds
  producers_first := more.readsFrom_eq ▸ safe.producers_first
  unprotected := unprotected
  readers_current reader member observes destroyer different overwrites precedes := by
    have overwrites' := more.overwrites acyclic overwrites
    rw [more.aliasRoot_aliasRoot acyclic] at overwrites'
    exact more.computedFrom_iff.mp
      (safe.readers_current reader member (more.observes observes) destroyer different overwrites' precedes)
  outputs_current member output destroyer overwrites := by
    have overwrites' := more.overwrites acyclic overwrites
    rw [more.aliasRoot_aliasRoot acyclic] at overwrites'
    rw [← more.outputs] at output
    exact more.computedFrom_iff.mp (safe.outputs_current member output destroyer overwrites')

end Order

end MoreInPlace

/-- Destructive forms that are valid together with later ones are valid without them, if none of their
nodes depends on what a later one computes. -/
theorem valid_of_moreInPlace [Arithmetic α] (wellFormed : graph.WellFormed)
    (trialFormed : trial.WellFormed) (laterFormed : later.WellFormed)
    (first : graph.MoreInPlace trial) (second : trial.MoreInPlace later) (valid : graph.Valid)
    (laterValid : later.Valid) (apart : ∀ id other, trial.node? id ≠ graph.node? id →
      later.node? other ≠ trial.node? other → ¬TransGen graph.ReadsFrom id other) : trial.Valid := by
  have acyclic := wellFormed.acyclic_of_valid valid
  have acyclic' := first.acyclic acyclic
  rcases laterFormed.valid_iff_safe.mp laterValid with ⟨order, safe⟩
  refine trialFormed.valid_iff_safe.mpr ⟨order, second.safe acyclic' safe ?_⟩
  -- What a new destructive form overwrites is in the same storage later.
  have new : ∀ id root, trial.node? id ≠ graph.node? id → trial.Overwrites id root →
      ¬trial.isProtected root := by
    intro id root changed overwrites
    have kept : later.aliasRoot root = root := by
      rcases overwrites with ⟨node, live, target, written, rfl⟩
      rw [second.aliasRoot_aliasRoot acyclic']
      refine second.aliasRoot_eq acyclic' target fun other computed => ?_
      by_contra changedLater
      refine apart id other changed changedLater ?_
      rcases computed with ⟨producer, produced, path⟩
      rw [← first.readsFrom_eq]
      exact TransGen.head' (readsFrom_iff.mpr
        ⟨node, live, target, mem_inputs_of_overwritten written, produced⟩) path
    have overwrites' := second.overwrites acyclic' overwrites
    rw [kept] at overwrites'
    rw [← second.isProtected_eq]
    exact safe.unprotected id root overwrites'
  intro destroyer root overwrites
  by_cases same : trial.node? destroyer = graph.node? destroyer
  · rcases overwrites with ⟨node, live, target, written, rfl⟩
    rcases first.aliasRoot_cases acyclic target with rootSame | ⟨id, changed, overwritesToo⟩
    · rw [rootSame, first.isProtected_eq]
      exact ((wellFormed.valid_iff.mp valid).1 destroyer _
        ⟨node, same ▸ live, target, written, rfl⟩).unprotected
    · exact new id _ changed overwritesToo
  · exact new destroyer root same overwrites

end Dataflow
end ArrayGraph
