import ArrayGraph.Executable
import ArrayGraph.Proofs.Alias.Contracts
import ArrayGraph.Proofs.Alias.Valid
import ArrayGraph.Proofs.Perform

/-!
# Wrapped outputs

To wrap an output is to add a node that reads it and to let the new variable take its place. The new
node reads storage that others may overwrite, but an output of a valid graph comes from all nodes that
overwrite its storage, so the new node never has to come before one of them. Nothing reads the new
variable, and what is removed in the end, no output depends on. So a valid graph stays valid however its
outputs are protected, and its outputs are computed as before.
-/

namespace ArrayGraph.Dataflow

open Relation

variable {α : Type} [Arithmetic α] {graph current later extended changed : Dataflow α}
  {index : Nat} {view : Bool} {output new var root : VarId} {id reader : NodeId} {node : Node α}

/-- The operation that an output is wrapped with. -/
def wrapper (α : Type) (view : Bool) : Op α := if view then .view else .copy

/-- Wrapping an output puts one node between the output and what computes it, and keeps no node but
those that outputs depend on. -/
structure Interposes (graph later : Dataflow α) (index : Nat) (view : Bool) (output new : VarId) :
    Prop extends graph.Wraps later index view output new where
  inputs : later.inputs = graph.inputs
  guarded : later.guarded = graph.guarded
  size : later.nodes.size = graph.nodes.size + 1
  live : later.node? ⟨graph.nodes.size⟩ = some ⟨wrapper α view, [output], [new]⟩
  type : later.type new = graph.type output
  needed : ∀ id node, later.node? id = some node → id.index < graph.nodes.size →
    id ∈ graph.ancestorsOf graph.outputs

section Retains

omit [Arithmetic α] in
theorem mem_ancestorsOf_of_readsFrom {source : NodeId} (member : reader ∈ graph.ancestorsOf graph.outputs)
    (reads : graph.ReadsFrom reader source) : source ∈ graph.ancestorsOf graph.outputs := by
  rcases mem_ancestorsOf.mp member with ⟨output, outputMem, producer, produced, path⟩
  exact mem_ancestorsOf.mpr ⟨output, outputMem, producer, produced, path.tail reads⟩

variable (retains : graph.Retains later) (formed : graph.Formed)

include retains formed

theorem Retains.readsFrom_iff {source : NodeId} (member : reader ∈ graph.ancestorsOf graph.outputs) :
    later.ReadsFrom reader source ↔ graph.ReadsFrom reader source := by
  rcases mem_ancestorsOf.mp member with ⟨_, _, computed⟩
  rcases computed.live with ⟨node, live⟩
  have live' := (retains.kept reader node live member).1
  rw [Dataflow.readsFrom_iff, Dataflow.readsFrom_iff, live, live']
  refine exists_congr fun content => and_congr_right fun same => ?_
  cases same
  refine exists_congr fun input => and_congr_right fun inputMem => ?_
  simp only [producerId?, retains.producer?_eq formed (needed_input formed live member inputMem)]

theorem Retains.transGen_iff {source : NodeId} (member : reader ∈ graph.ancestorsOf graph.outputs) :
    TransGen later.ReadsFrom reader source ↔ TransGen graph.ReadsFrom reader source := by
  constructor
  · refine fun path => (transGen_of_within ?_ member path).1
    intro reader source member reads
    have reads := (retains.readsFrom_iff formed member).mp reads
    exact ⟨reads, mem_ancestorsOf_of_readsFrom member reads⟩
  · refine fun path => (transGen_of_within ?_ member path).1
    intro reader source member reads
    exact ⟨(retains.readsFrom_iff formed member).mpr reads, mem_ancestorsOf_of_readsFrom member reads⟩

/-- What is needed is computed from what it was computed from. -/
theorem Retains.computedFrom_iff (needed : graph.Needed var) :
    later.ComputedFrom var id ↔ graph.ComputedFrom var id := by
  have same : later.producerId? var = graph.producerId? var := by
    simp only [producerId?, retains.producer?_eq formed needed]
  rw [ComputedFrom, ComputedFrom, same]
  refine exists_congr fun producer => and_congr_right fun produced => ?_
  rw [reflTransGen_iff_eq_or_transGen, reflTransGen_iff_eq_or_transGen,
    retains.transGen_iff formed (needed.2 producer produced)]

/-- What is needed evaluates to what it evaluated to. -/
theorem Retains.evaluates_iff (needed : graph.Needed var) (hosts : Meaning α)
    (roots : VarId → Option (Tensor α)) (tensor : Tensor α) :
    later.Evaluates hosts roots var tensor ↔ graph.Evaluates hosts roots var tensor := by
  refine Evaluates.congr_iff graph.Needed ?_ ?_ needed
  · intro var needed
    exact ⟨by simp only [producerNode?, retains.producer?_eq formed needed], rfl⟩
  · intro var node index needed produced input member
    rcases producerNode?_eq_some.mp produced with ⟨id, found⟩
    exact needed_input formed (producer?_eq_some.mp found).2
      (needed.2 id (producerId?_eq_some.mpr ⟨node, index, found⟩)) member

end Retains

section Interpose

omit [Arithmetic α] in
theorem overwritten_wrapper {inputs outputs : List VarId} :
    overwritten (⟨wrapper α view, inputs, outputs⟩ : Node α) = [] := by
  cases view <;> rfl

theorem inferTypes_wrapper (type : ArrayType) :
    (wrapper α view).inferTypes [type] = Except.ok [type] := by
  cases view <;> rfl

theorem evaluate_wrapper (hosts : Meaning α) (tensor : Tensor α) :
    (wrapper α view).evaluate hosts [tensor] = Except.ok [tensor] := by
  cases view <;> rfl

theorem Adds.computedFrom_new {op : Op α} (formed : graph.Formed)
    (adds : graph.Adds extended op [output] [new]) (computed : extended.ComputedFrom new id) :
    id = ⟨graph.nodes.size⟩ ∨ graph.ComputedFrom output id := by
  rcases computed with ⟨producer, produced, path⟩
  have known := adds.inputs_known output (by simp)
  have produced' : extended.producerId? new = some ⟨graph.nodes.size⟩ :=
    producerId?_eq_some.mpr ⟨_, 0, producer?_of_output (adds.output 0 new rfl).2.2 adds.live⟩
  cases produced.symm.trans produced'
  rcases ReflTransGen.cases_head path with same | ⟨source, reads, path⟩
  · exact Or.inl same.symm
  · rcases readsFrom_iff.mp reads with ⟨content, live, input, member, inputProduced⟩
    cases live.symm.trans adds.live
    cases List.mem_singleton.mp member
    exact Or.inr ((adds.extend.computedFrom_iff formed known).mp ⟨source, inputProduced, path⟩)

theorem Adds.interposes (formed : graph.Formed) (acyclic : graph.Acyclic)
    (adds : graph.Adds extended (wrapper α view) [output] [new])
    (found : graph.outputs[index]? = some output)
    (same : changed = { extended with outputs := extended.outputs.set index new })
    (laterFormed : changed.prune.Formed) : graph.Interposes changed.prune index view output new where
  toWraps := adds.wraps formed acyclic found same laterFormed
  inputs := same ▸ adds.extend.inputs
  guarded := same ▸ adds.extend.guarded
  size := by simpa [Dataflow.prune, same] using adds.nodes_size
  live := by
    have produced : extended.producerId? new = some ⟨graph.nodes.size⟩ :=
      producerId?_eq_some.mpr ⟨_, 0, producer?_of_output (adds.output 0 new rfl).2.2 adds.live⟩
    have inside := (List.getElem?_eq_some_iff.mp found).1
    have member : new ∈ changed.outputs := by
      rw [same, adds.extend.outputs]
      exact List.mem_iff_getElem?.mpr ⟨index, by simp [inside]⟩
    exact node?_prune.mpr ⟨same ▸ adds.live,
      mem_ancestorsOf.mpr ⟨new, member, _, same ▸ produced, ReflTransGen.refl⟩⟩
  type := by
    have inferred := adds.inferred
    rw [List.map_singleton, inferTypes_wrapper] at inferred
    have types := List.singleton_inj.mp (Except.ok.inj inferred)
    exact same ▸ types.symm
  needed id node live inside := by
    rcases mem_ancestorsOf.mp (node?_prune.mp live).2 with ⟨other, member, computed⟩
    rw [same] at member computed
    have computed : extended.ComputedFrom other id := computed
    rcases List.mem_or_eq_of_mem_set member with member | rfl
    · rw [adds.extend.outputs] at member
      have known := formed.read_known other (Or.inl member)
      exact mem_ancestorsOf.mpr
        ⟨other, member, (adds.extend.computedFrom_iff formed known).mp computed⟩
    · rcases adds.computedFrom_new formed computed with rfl | computed
      · exact absurd inside (by simp)
      · exact mem_ancestorsOf.mpr ⟨output, List.mem_of_getElem? found, computed⟩

/-- An output can always be wrapped. -/
theorem exists_wrapOutput (formed : graph.Formed) (acyclic : graph.Acyclic)
    (found : graph.outputs[index]? = some output) (view : Bool) :
    ∃ new later, graph.wrapOutput index view = Except.ok later ∧
      graph.Interposes later index view output new := by
  have known := formed.read_known output (Or.inl (List.mem_of_getElem? found))
  have inferred : (wrapper α view).inferTypes ([output].map graph.type) =
      Except.ok [graph.type output] := inferTypes_wrapper _
  rcases exists_addNodeSingle (by simpa using known) inferred with ⟨new, extended, added⟩
  have adds : graph.Adds extended (wrapper α view) [output] [new] := by
    simpa [added] using addNodeSingle_eq_ok (congrArg Prod.fst added)
  have types : extended.type output = extended.type new := by
    have same := inferred.symm.trans adds.inferred
    rw [adds.extend.type_eq known]
    exact List.singleton_inj.mp (Except.ok.inj same)
  have found' : extended.outputs[index]? = some output := adds.extend.outputs ▸ found
  have replaced : extended.replaceOutput index new =
      Except.ok { extended with outputs := extended.outputs.set index new }.prune := by
    have required : (extended.requireVar new : Checked GraphError Unit) = Except.ok () :=
      requireVar_eq_ok.mpr (adds.output 0 new rfl).2.1
    simp only [replaceOutput, found', Checked.orError, Checked.ok_bind, required, types]
    simp
  refine ⟨new, _, ?_, adds.interposes formed acyclic found rfl ((formed.adds adds).replaceOutput replaced)⟩
  rw [wrapper] at added
  simp only [wrapOutput, found, Checked.orError, Checked.ok_bind, added, replaced]

end Interpose

theorem Overwrites.known (overwrites : graph.Overwrites id root) (formed : graph.Formed)
    (acyclic : graph.Acyclic) : root.index < graph.vars.size := by
  rcases overwrites with ⟨node, live, target, written, rfl⟩
  exact formed.aliasRoot_known acyclic
    (formed.read_known target (Or.inr ⟨id, node, live, mem_inputs_of_overwritten written⟩))

section Interposes

variable (interposes : graph.Interposes later index view output new) (formed : graph.Formed)

include interposes

/-- A node is one that outputs depended on before, or the new one. -/
theorem Interposes.live_cases (live : later.node? id = some node) :
    (graph.node? id = some node ∧ id ∈ graph.ancestorsOf graph.outputs) ∨
      id = ⟨graph.nodes.size⟩ ∧ node = ⟨wrapper α view, [output], [new]⟩ := by
  by_cases inside : id.index < graph.nodes.size
  · exact Or.inl ⟨interposes.old id node inside live, interposes.needed id node live inside⟩
  · have last := lt_size_of_node? live
    rw [interposes.size] at last
    have same : id = ⟨graph.nodes.size⟩ := by
      rcases id with ⟨position⟩
      simp only [NodeId.mk.injEq] at inside last ⊢
      omega
    subst same
    exact Or.inr ⟨rfl, Option.some.inj (live.symm.trans interposes.live)⟩

theorem Interposes.producer?_new :
    later.producer? new = some (⟨graph.nodes.size⟩, ⟨wrapper α view, [output], [new]⟩, 0) :=
  producer?_of_output (interposes.formed.output_known _ _ interposes.live 0 new rfl).2 interposes.live

include formed

theorem Interposes.needed_output : graph.Needed output :=
  Dataflow.needed_output formed (List.mem_of_getElem? interposes.found)

/-- The new variable is computed from whatever the output is computed from. -/
theorem Interposes.computedFrom_new (computed : graph.ComputedFrom output id) :
    later.ComputedFrom new id := by
  have needed := interposes.needed_output formed
  rcases (interposes.computedFrom_iff formed needed).mpr computed with ⟨source, produced, path⟩
  refine ⟨_, producerId?_eq_some.mpr ⟨_, 0, interposes.producer?_new⟩, path.head ?_⟩
  exact Dataflow.readsFrom_iff.mpr ⟨_, interposes.live, output, by simp, produced⟩

theorem Interposes.needed_input (live : later.node? reader = some node) (input : var ∈ node.inputs) :
    graph.Needed var := by
  rcases interposes.live_cases live with ⟨live, member⟩ | ⟨_, rfl⟩
  · exact Dataflow.needed_input formed live member input
  · cases List.mem_singleton.mp input
    exact interposes.needed_output formed

/-- Nothing reads the new variable. -/
theorem Interposes.source_old {source : NodeId} (reads : later.ReadsFrom reader source) :
    source.index < graph.nodes.size := by
  rcases Dataflow.readsFrom_iff.mp reads with ⟨node, live, input, member, produced⟩
  have needed := interposes.needed_input formed live member
  rw [producerId?, interposes.producer?_eq formed needed] at produced
  rcases producerId?_eq_some.mp produced with ⟨_, _, found⟩
  exact lt_size_of_node? (producer?_eq_some.mp found).2

variable (acyclic : graph.Acyclic)

include acyclic

theorem Interposes.aliasRoot_new :
    later.aliasRoot new = if view then graph.aliasRoot output else new := by
  have self : later.outputRoot? index = some (later.aliasRoot new) := by
    simp [outputRoot?, interposes.output_self]
  cases view with
  | true =>
    rw [interposes.outputRoot?_view formed acyclic rfl] at self
    simpa [outputRoot?, interposes.found] using self.symm
  | false =>
    rw [interposes.outputRoot?_copy rfl] at self
    simpa using self.symm

theorem Interposes.overwrites_of (overwrites : later.Overwrites id root) :
    graph.Overwrites id root ∧ id ∈ graph.ancestorsOf graph.outputs := by
  rcases overwrites with ⟨node, live, target, written, rfl⟩
  have needed := interposes.needed_input formed live (mem_inputs_of_overwritten written)
  rcases interposes.live_cases live with ⟨live, member⟩ | ⟨_, rfl⟩
  · exact ⟨⟨node, live, target, written,
      (interposes.aliasRoot_eq formed acyclic interposes.acyclic needed).symm⟩, member⟩
  · simp [overwritten_wrapper] at written

/-- What an old node may overwrite, it may overwrite when an output has been wrapped. -/
theorem Interposes.clear (overwrites : graph.Overwrites id root)
    (member : id ∈ graph.ancestorsOf graph.outputs) (clear : graph.Clear id root) :
    later.Clear id root where
  unprotected := by
    have sameVar := var_eq_of_further interposes.vars (overwrites.known formed acyclic)
    simp only [isProtected, isFixed, interposes.guarded, interposes.inputs, sameVar]
    exact clear.unprotected
  output := by
    intro other otherMem same
    rw [interposes.outputs] at otherMem
    rcases List.mem_or_eq_of_mem_set otherMem with old | same'
    · have needed := Dataflow.needed_output formed old
      rw [interposes.aliasRoot_eq formed acyclic interposes.acyclic needed] at same
      exact (interposes.computedFrom_iff formed needed).mpr (clear.output other old same)
    · rw [same', interposes.aliasRoot_new formed acyclic] at same
      rw [same']
      cases view with
      | true =>
        exact interposes.computedFrom_new formed
          (clear.output output (List.mem_of_getElem? interposes.found) same)
      | false =>
        -- A copy has storage of its own.
        have known := overwrites.known formed acyclic
        have fresh := interposes.fresh
        rw [show new = root from same] at fresh
        omega
  reader := by
    intro reader other observes different same stale
    rcases observes with ⟨node, live, view, input⟩
    have needed := interposes.needed_input formed live input
    rw [interposes.aliasRoot_eq formed acyclic interposes.acyclic needed] at same
    rw [interposes.computedFrom_iff formed needed] at stale
    rcases interposes.live_cases live with ⟨live, readerMem⟩ | ⟨_, rfl⟩
    · have before := clear.reader reader other ⟨node, live, view, input⟩ different same stale
      rw [interposes.transGen_iff formed readerMem, interposes.transGen_iff formed member]
      exact ⟨before.1, fun overwritesToo =>
        before.2 (interposes.overwrites_of formed acyclic overwritesToo).1⟩
    · cases List.mem_singleton.mp input
      exact absurd (clear.output output (List.mem_of_getElem? interposes.found) same) stale

omit acyclic in
/-- Wrapping an output of a valid graph leaves a valid graph. -/
theorem Interposes.valid (valid : graph.Valid) : later.Valid := by
  have acyclic := formed.acyclic_of_valid valid
  rcases formed.valid_iff.mp valid with ⟨clear, noCycle⟩
  refine interposes.formed.valid_iff.mpr ⟨?_, ?_⟩
  · intro destroyer root overwrites
    rcases interposes.overwrites_of formed acyclic overwrites with ⟨overwrites, member⟩
    exact interposes.clear formed acyclic overwrites member (clear destroyer root overwrites)
  -- The new node comes before nothing, so a cycle has old nodes only.
  have old : ∀ last first, later.Follows last first → first.index < graph.nodes.size := by
    rintro last first (reads | ⟨root, overwrites, _, member, ⟨node, live, view, input⟩, same, stale⟩)
    · exact interposes.source_old formed reads
    · have needed := interposes.needed_input formed live input
      rw [interposes.aliasRoot_eq formed acyclic interposes.acyclic needed] at same
      rw [interposes.computedFrom_iff formed needed] at stale
      rcases interposes.live_cases live with ⟨live, _⟩ | ⟨_, rfl⟩
      · exact lt_size_of_node? live
      · cases List.mem_singleton.mp input
        exact absurd ((clear last root (interposes.overwrites_of formed acyclic overwrites).1).output
          output (List.mem_of_getElem? interposes.found) same) stale
  have step : ∀ last first, last.index < graph.nodes.size → later.Follows last first →
      graph.Follows last first ∧ first.index < graph.nodes.size := by
    intro last first inside follows
    have inside' := old last first follows
    refine ⟨?_, inside'⟩
    rcases follows with reads | ⟨root, overwrites, different, member, ⟨node, live, view, input⟩, same, stale⟩
    · rcases reads.live_reader with ⟨node, live⟩
      exact Or.inl ((interposes.readsFrom_iff formed (interposes.needed last node live inside)).mp reads)
    · have needed := interposes.needed_input formed live input
      rw [interposes.aliasRoot_eq formed acyclic interposes.acyclic needed] at same
      rw [interposes.computedFrom_iff formed needed] at stale
      exact Or.inr ⟨root, (interposes.overwrites_of formed acyclic overwrites).1, different, member,
        ⟨node, interposes.old first node inside' live, view, input⟩, same, stale⟩
  intro id cycle
  rcases TransGen.tail'_iff.mp cycle with ⟨_, _, last⟩
  exact noCycle id (transGen_of_within step (old _ _ last) cycle).1

omit acyclic in
/-- The new variable evaluates to what the output evaluated to. -/
theorem Interposes.evaluates_new (hosts : Meaning α) (roots : VarId → Option (Tensor α))
    (tensor : Tensor α) :
    later.Evaluates hosts roots new tensor ↔ graph.Evaluates hosts roots output tensor := by
  have produced : later.producerNode? new = some (⟨wrapper α view, [output], [new]⟩, 0) :=
    producerNode?_eq_some.mpr ⟨_, interposes.producer?_new⟩
  rw [← interposes.evaluates_iff formed (interposes.needed_output formed), Evaluates,
    Evaluates.output_iff produced]
  simp only [List.mem_singleton, forall_eq, List.map_singleton, evaluate_wrapper, Except.ok.injEq,
    exists_and_left]
  constructor
  · rintro ⟨values, evaluates, _, rfl, selected⟩
    cases selected
    exact evaluates
  · exact fun evaluates => ⟨fun _ => tensor, evaluates, [tensor], rfl, rfl⟩

end Interposes

section Shield

variable {inputs : List InputContract} {outputs : List OutputContract}
  {wrapped : List (Nat × Bool)} {reached : Nat}

/-- Some outputs have been wrapped one after the other, each with a node of its own. -/
structure Shields (graph later : Dataflow α) (wrapped : List (Nat × Bool)) : Prop
    extends graph.Retains later where
  inputs : later.inputs = graph.inputs
  guarded : later.guarded = graph.guarded
  types : later.outputs.map later.type = graph.outputs.map graph.type
  size : later.nodes.size = graph.nodes.size + wrapped.length
  distinct : (wrapped.map Prod.fst).Nodup
  /-- The node made for an output reads what the output was, and computes what it is now. -/
  wrapping : ∀ count index view, wrapped[count]? = some (index, view) → ∃ output new,
    graph.outputs[index]? = some output ∧ later.outputs[index]? = some new ∧
      later.node? ⟨graph.nodes.size + count⟩ = some ⟨wrapper α view, [output], [new]⟩
  unwrapped : ∀ index, index ∉ wrapped.map Prod.fst → later.outputs[index]? = graph.outputs[index]?
  evaluates : ∀ (index : Nat) output new, graph.outputs[index]? = some output →
    later.outputs[index]? = some new → ∀ hosts roots tensor,
      later.Evaluates hosts roots new tensor ↔ graph.Evaluates hosts roots output tensor

theorem Shields.refl (graph : Dataflow α) : graph.Shields graph [] where
  toRetains := Retains.refl graph
  inputs := rfl
  guarded := rfl
  types := rfl
  size := rfl
  distinct := by simp
  wrapping := by simp
  unwrapped _ _ := rfl
  evaluates index output new found found' hosts roots tensor := by
    cases found.symm.trans found'
    rfl

theorem Interposes.output_of_ne (interposes : graph.Interposes later index view output new) {other : Nat}
    (different : other ≠ index) : later.outputs[other]? = graph.outputs[other]? := by
  rw [interposes.outputs, List.getElem?_set_ne (Ne.symm different)]

theorem Interposes.output_types (interposes : graph.Interposes later index view output new)
    (formed : graph.Formed) : later.outputs.map later.type = graph.outputs.map graph.type := by
  apply List.ext_getElem?
  intro position
  rw [List.getElem?_map, List.getElem?_map]
  by_cases same : position = index
  · rw [same, interposes.output_self, interposes.found]
    exact congrArg some interposes.type
  · rw [interposes.output_of_ne same]
    cases found : graph.outputs[position]? with
    | none => rfl
    | some other =>
      have known := formed.read_known other (Or.inl (List.mem_of_getElem? found))
      simp only [Option.map_some, Dataflow.type, var_eq_of_further interposes.vars known]

/-- One more output is wrapped. -/
theorem Shields.wrap (shields : graph.Shields current wrapped) (formed : current.Formed)
    (interposes : current.Interposes later index view output new)
    (fresh : index ∉ wrapped.map Prod.fst) : graph.Shields later (wrapped ++ [(index, view)]) where
  toRetains := shields.toRetains.trans interposes.toRetains
  inputs := interposes.inputs.trans shields.inputs
  guarded := interposes.guarded.trans shields.guarded
  types := (interposes.output_types formed).trans shields.types
  size := by
    rw [interposes.size, shields.size, List.length_append, List.length_singleton, Nat.add_assoc]
  distinct := by
    rw [List.map_append, List.map_singleton]
    exact List.concat_eq_append ▸ shields.distinct.concat fresh
  wrapping := by
    intro count position view' listed
    by_cases earlier : count < wrapped.length
    · rw [List.getElem?_append_left earlier] at listed
      rcases shields.wrapping count position view' listed with ⟨first, last, found, found', live⟩
      have different : position ≠ index := by
        rintro rfl
        exact fresh (List.mem_map.mpr ⟨_, List.mem_of_getElem? listed, rfl⟩)
      refine ⟨first, last, found, (interposes.output_of_ne different).trans found', ?_⟩
      -- The node is needed for the output that it computes.
      have produced := producer?_of_output (formed.output_known _ _ live 0 last rfl).2 live
      exact (interposes.kept _ _ live (mem_ancestorsOf.mpr ⟨last, List.mem_of_getElem? found', _,
        producerId?_eq_some.mpr ⟨_, _, produced⟩, ReflTransGen.refl⟩)).1
    · have inside := (List.getElem?_eq_some_iff.mp listed).1
      rw [List.length_append, List.length_singleton] at inside
      have same : count = wrapped.length := by omega
      subst same
      rw [List.getElem?_concat_length] at listed
      cases listed
      refine ⟨output, new, ?_, interposes.output_self, ?_⟩
      · exact (shields.unwrapped _ fresh).symm.trans interposes.found
      · exact shields.size ▸ interposes.live
  unwrapped position unlisted := by
    rw [List.map_append, List.mem_append, not_or] at unlisted
    rw [interposes.output_of_ne (by simpa using unlisted.2), shields.unwrapped position unlisted.1]
  evaluates := by
    intro position first last found found' hosts roots tensor
    by_cases same : position = index
    · subst same
      cases interposes.output_self.symm.trans found'
      exact (interposes.evaluates_new formed hosts roots tensor).trans
        (shields.evaluates position first output found interposes.found hosts roots tensor)
    · rw [interposes.output_of_ne same] at found'
      have needed := needed_output formed (List.mem_of_getElem? found')
      exact (interposes.evaluates_iff formed needed hosts roots tensor).trans
        (shields.evaluates position first last found found' hosts roots tensor)

/-- Protecting the outputs from a position on succeeds. -/
theorem exists_protectFrom (inputs : List InputContract) (destroyed : List VarId)
    {rest : List (OutputContract × Nat)} (length : outputs.length = graph.outputs.length)
    (split : rest = outputs.zipIdx.drop reached)
    (below : ∀ index ∈ wrapped.map Prod.fst, index < reached)
    (shields : graph.Shields current wrapped) (formed : current.Formed) (valid : current.Valid) :
    ∃ all later, protectFrom destroyed inputs outputs rest (wrapped.length, current) =
        Except.ok (all.length, later) ∧ graph.Shields later all ∧ later.Formed ∧ later.Valid := by
  induction rest generalizing reached current wrapped with
  | nil => exact ⟨wrapped, current, rfl, shields, formed, valid⟩
  | cons entry rest ih =>
    rcases entry with ⟨contract, index⟩
    rcases drop_zipIdx_eq_cons split with ⟨rfl, agreed, split'⟩
    have fresh : reached ∉ wrapped.map Prod.fst := fun member => Nat.lt_irrefl _ (below _ member)
    have inside : reached < graph.outputs.length := length ▸ (List.getElem?_eq_some_iff.mp agreed).1
    have found : current.outputs[reached]? = some graph.outputs[reached] :=
      (shields.unwrapped reached fresh).trans (List.getElem?_eq_getElem inside)
    simp only [protectFrom, outputRoot?, found, Option.map_some, Checked.orError, Checked.ok_bind]
    split
    · rename_i view _
      rcases exists_wrapOutput formed (formed.acyclic_of_valid valid) found view with
        ⟨new, next, wrapping, interposes⟩
      rw [wrapping, Checked.ok_bind]
      have within : ∀ index ∈ (wrapped ++ [(reached, view)]).map Prod.fst, index < reached + 1 := by
        intro index member
        rw [List.map_append, List.mem_append] at member
        rcases member with earlier | last
        · exact Nat.lt_succ_of_lt (below index earlier)
        · rw [List.map_singleton, List.mem_singleton] at last
          exact last ▸ Nat.lt_succ_self reached
      simpa using ih split' within (shields.wrap formed interposes fresh) interposes.formed
        (interposes.valid formed valid)
    · exact ih split' (fun index member => Nat.lt_succ_of_lt (below index member)) shields formed valid

/-- Protecting the outputs of a valid graph succeeds, adds one view or copy for each output that is
wrapped, and leaves a valid graph with the same outputs, which can be linked. -/
theorem protectOutputs_valid (graph : Dataflow α) (inputs : List InputContract)
    (outputs : List OutputContract) (formed : graph.Formed) (valid : graph.Valid)
    (length : outputs.length = graph.outputs.length) :
    ∃ wrapped later, graph.protectOutputs inputs outputs = Except.ok (wrapped.length, later) ∧
      graph.Shields later wrapped ∧ ∃ orderings, later.validate = Except.ok orderings ∧
        ∀ linker options, ∃ executable log,
          Executable.link linker options later orderings = Except.ok (executable, log) := by
  have start : graph.Shields graph [] := Shields.refl graph
  rcases exists_protectFrom inputs graph.destroyedRoots length (List.drop_zero).symm (by simp) start
    formed valid with
    ⟨wrapped, later, ran, shields, formedLater, orderings, validated⟩
  refine ⟨wrapped, later, ?_, shields, orderings, validated, ?_⟩
  · rw [protectOutputs, if_pos length]
    exact ran
  · intro linker options
    rcases formedLater.validate_eq_ok validated with ⟨_, _, order, ordered⟩
    simp only [Executable.link, Schedule.ofGraph, ordered, Checked.ok_bind]
    cases linker <;> exact ⟨_, _, rfl⟩

/-- A vector negated in place, handed out twice. -/
def negatedInPlaceTwice : Dataflow Float where
  vars := #[⟨ArrayType.ofRank .float64 1, .input, some "x"⟩,
    ⟨ArrayType.ofRank .float64 1, .output ⟨0⟩ 0, none⟩]
  nodes := #[some ⟨.elementwise .neg (some 0), [⟨0⟩], [⟨1⟩]⟩]
  inputs := [⟨0⟩]
  outputs := [⟨1⟩, ⟨1⟩]
  guarded := []

/-- The first output is a view of the second. -/
def negatedInPlaceViewed : Dataflow Float where
  vars := negatedInPlaceTwice.vars.push ⟨ArrayType.ofRank .float64 1, .output ⟨1⟩ 0, none⟩
  nodes := negatedInPlaceTwice.nodes.push (some ⟨.view, [⟨1⟩], [⟨2⟩]⟩)
  inputs := [⟨0⟩]
  outputs := [⟨2⟩, ⟨1⟩]
  guarded := []

/-- The view reads storage that has been overwritten, but only what was written there. -/
theorem protectOutputs_valid_negatedInPlaceTwice :
    negatedInPlaceTwice.Formed ∧ negatedInPlaceTwice.Valid ∧
      negatedInPlaceTwice.protectOutputs [⟨⟨0⟩, true, false⟩] [⟨true, none⟩, ⟨true, none⟩] =
        Except.ok (1, negatedInPlaceViewed) ∧ negatedInPlaceViewed.Valid ∧
      ∀ hosts roots tensor, negatedInPlaceViewed.Evaluates hosts roots ⟨2⟩ tensor ↔
        negatedInPlaceTwice.Evaluates hosts roots ⟨1⟩ tensor := by
  have formed : negatedInPlaceTwice.Formed := by decide
  have valid : negatedInPlaceTwice.Valid := ⟨_, rfl⟩
  rcases protectOutputs_valid negatedInPlaceTwice [⟨⟨0⟩, true, false⟩] [⟨true, none⟩, ⟨true, none⟩]
    formed valid rfl with ⟨wrapped, later, ran, shields, orderings, validated, _⟩
  have ran' : negatedInPlaceTwice.protectOutputs [⟨⟨0⟩, true, false⟩] [⟨true, none⟩, ⟨true, none⟩] =
      Except.ok (1, negatedInPlaceViewed) := by rfl
  rcases Prod.mk.inj (Except.ok.inj (ran.symm.trans ran')) with ⟨_, rfl⟩
  exact ⟨formed, valid, ran', ⟨orderings, validated⟩, shields.evaluates 0 ⟨1⟩ ⟨2⟩ rfl rfl⟩

end Shield

end ArrayGraph.Dataflow
