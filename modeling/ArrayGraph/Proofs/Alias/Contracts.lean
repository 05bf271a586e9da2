import Mathlib.Data.List.Find
import ArrayGraph.Reuse
import ArrayGraph.Proofs.Alias.Storage
import ArrayGraph.Proofs.Alias.Validate
import ArrayGraph.Proofs.Dataflow.Acyclic
import ArrayGraph.Proofs.Run.Currency

/-!
# Outputs and the sharing contracts

Outputs are protected one after the other. To wrap an output adds one node and makes no difference to
the storage of any other output, so each decision is as good as one made on the graph from which
everything started: an output that is copied gets storage of its own, and every other output keeps
the owner it had.

An output that borrows is made a view if the next output with its owner borrows too, whatever the
owner is and whoever comes after that one. All contracts are kept if this happens only to owners that
may be lent: an output that borrows may have them, and so does the last output that they have.
-/

namespace ArrayGraph.Dataflow

open Relation

variable {α : Type} {graph later : Dataflow α} {var : VarId} {id : NodeId} {node : Node α}

section Retains

/-- A graph has grown out of another one, and has all nodes that the outputs of the other one depend
on. -/
structure Retains (graph later : Dataflow α) : Prop where
  vars : graph.vars.toList <+: later.vars.toList
  nodes : graph.nodes.size ≤ later.nodes.size
  old : ∀ id node, id.index < graph.nodes.size → later.node? id = some node →
    graph.node? id = some node
  kept : ∀ id node, graph.node? id = some node → id ∈ graph.ancestorsOf graph.outputs →
    later.node? id = some node ∧ id ∈ later.ancestorsOf later.outputs

theorem Retains.refl (graph : Dataflow α) : graph.Retains graph :=
  ⟨List.prefix_refl _, Nat.le_refl _, fun _ _ _ live => live, fun _ _ live member => ⟨live, member⟩⟩

theorem Retains.trans {middle : Dataflow α} (first : graph.Retains middle)
    (second : middle.Retains later) : graph.Retains later where
  vars := first.vars.trans second.vars
  nodes := Nat.le_trans first.nodes second.nodes
  old id node inside live :=
    first.old id node inside (second.old id node (Nat.lt_of_lt_of_le inside first.nodes) live)
  kept id node live member := by
    rcases first.kept id node live member with ⟨live, member⟩
    exact second.kept id node live member

/-- A variable of which everything it is computed from is needed by some output. -/
def Needed (graph : Dataflow α) (var : VarId) : Prop :=
  var.index < graph.vars.size ∧
    ∀ id, graph.producerId? var = some id → id ∈ graph.ancestorsOf graph.outputs

theorem needed_output [Arithmetic α] (formed : graph.Formed) (output : var ∈ graph.outputs) :
    graph.Needed var := by
  refine ⟨formed.read_known var (Or.inl output), ?_⟩
  intro id produced
  exact mem_ancestorsOf.mpr ⟨var, output, id, produced, ReflTransGen.refl⟩

theorem needed_input [Arithmetic α] (formed : graph.Formed) (live : graph.node? id = some node)
    (member : id ∈ graph.ancestorsOf graph.outputs) (input : var ∈ node.inputs) :
    graph.Needed var := by
  refine ⟨formed.read_known var (Or.inr ⟨id, node, live, input⟩), ?_⟩
  intro source produced
  rcases mem_ancestorsOf.mp member with ⟨output, outputMem, producer, found, path⟩
  apply mem_ancestorsOf.mpr
  exact ⟨output, outputMem, producer, found,
    path.tail (readsFrom_iff.mpr ⟨node, live, var, input, produced⟩)⟩

variable [Arithmetic α]

theorem Retains.producer?_eq (retains : graph.Retains later) (formed : graph.Formed)
    (needed : graph.Needed var) : later.producer? var = graph.producer? var := by
  have sameVar := var_eq_of_further retains.vars needed.1
  cases kind : (graph.var var).kind with
  | output id index =>
    cases live : graph.node? id with
    | some node =>
      have produced := producer?_of_output kind live
      rw [produced]
      have member := needed.2 id (producerId?_eq_some.mpr ⟨node, index, produced⟩)
      exact producer?_of_output (sameVar ▸ kind) (retains.kept id node live member).1
    | none =>
      have gone : later.node? id = none := by
        cases found : later.node? id with
        | none => rfl
        | some node =>
          have live' := retains.old id node (formed.named var id index kind) found
          rw [live] at live'
          cases live'
      simp [Dataflow.producer?, sameVar, Variable.producer?, kind, live, gone]
  | _ =>
    have unproduced : graph.producer? var = none := producer?_eq_none_of_kind (by simp [kind])
    rw [unproduced, producer?_eq_none_of_kind (by simp [sameVar, kind])]

/-- Storage that is needed has the owner it had. -/
theorem Retains.aliasRoot_eq (retains : graph.Retains later) (formed : graph.Formed)
    (acyclic : graph.Acyclic) (acyclic' : later.Acyclic) (needed : graph.Needed var) :
    later.aliasRoot var = graph.aliasRoot var := by
  have sameSource : ∀ var, graph.Needed var →
      later.storageSource? var = graph.storageSource? var := by
    intro var needed
    simp only [storageSource?, retains.producer?_eq formed needed]
  refine acyclic.storage_induction (motive := fun var => graph.Needed var →
    later.aliasRoot var = graph.aliasRoot var) ?_ ?_ var needed
  · intro var ended needed
    rw [aliasRoot_of_none ended, aliasRoot_of_none (by rw [sameSource var needed, ended])]
  · intro var source lives ih needed
    rcases lives.producer with ⟨id, node, produced, live, input⟩
    have lives' : later.LivesIn var source := (sameSource var needed).trans lives
    rw [acyclic.aliasRoot_eq lives, acyclic'.aliasRoot_eq lives']
    exact ih (needed_input formed live (needed.2 id produced) input)

/-- The owner of the storage of a variable of a graph is a variable of the graph. -/
theorem Formed.aliasRoot_known (formed : graph.Formed) (acyclic : graph.Acyclic)
    (known : var.index < graph.vars.size) : (graph.aliasRoot var).index < graph.vars.size := by
  refine acyclic.storage_induction (motive := fun var => var.index < graph.vars.size →
    (graph.aliasRoot var).index < graph.vars.size) ?_ ?_ var known
  · intro var ended known
    rwa [aliasRoot_of_none ended]
  · intro var source lives ih _
    rcases lives.producer with ⟨id, node, _, live, input⟩
    rw [acyclic.aliasRoot_eq lives]
    exact ih (formed.read_known source (Or.inr ⟨id, node, live, input⟩))

/-- A node goes on overwriting the storage of an output. -/
theorem Retains.overwrites (retains : graph.Retains later) (formed : graph.Formed)
    (acyclic : graph.Acyclic) (acyclic' : later.Acyclic) {root : VarId}
    (member : id ∈ graph.ancestorsOf graph.outputs) (overwrites : graph.Overwrites id root) :
    later.Overwrites id root := by
  rcases overwrites with ⟨node, live, target, written, rfl⟩
  refine ⟨node, (retains.kept id node live member).1, target, written, ?_⟩
  have input : target ∈ node.inputs := by
    rcases List.mem_filterMap.mp written with ⟨_, _, found⟩
    exact List.mem_of_getElem? found
  exact retains.aliasRoot_eq formed acyclic acyclic' (needed_input formed live member input)

end Retains

section Wrap

variable [Arithmetic α] {index : Nat} {view : Bool} {output new : VarId}

/-- What wrapping an output does: a new variable takes its place, which lives in the storage of the
output if it is a view of it. -/
structure Wraps (graph later : Dataflow α) (index : Nat) (view : Bool) (output new : VarId) : Prop
    extends graph.Retains later where
  formed : later.Formed
  acyclic : later.Acyclic
  found : graph.outputs[index]? = some output
  outputs : later.outputs = graph.outputs.set index new
  fresh : graph.vars.size ≤ new.index
  kind : ∃ id, (later.var new).kind = .output id 0
  source : later.storageSource? new = if view then some output else none

section Adds

variable {extended changed : Dataflow α}

/-- Nothing that the outputs depended on is lost when the output of a new node that reads an output
takes its place. -/
theorem Adds.ancestor_of_set {op : Op α} (formed : graph.Formed)
    (adds : graph.Adds extended op [output] [new]) (found : graph.outputs[index]? = some output)
    (same : changed = { extended with outputs := extended.outputs.set index new })
    (member : id ∈ graph.ancestorsOf graph.outputs) :
    id ∈ changed.ancestorsOf changed.outputs := by
  rcases List.getElem?_eq_some_iff.mp found with ⟨inside, _⟩
  rcases mem_ancestorsOf.mp member with ⟨other, otherMem, computed⟩
  have computed' := adds.extend.computedFrom formed
    (formed.read_known other (Or.inl otherMem)) computed
  have outputs : changed.outputs = graph.outputs.set index new := by
    rw [same, ← adds.extend.outputs]
  apply mem_ancestorsOf.mpr
  rw [outputs]
  rcases List.mem_iff_getElem?.mp otherMem with ⟨position, otherFound⟩
  by_cases replaced : position = index
  · -- The new node reads what was the output.
    subst replaced
    rw [found] at otherFound
    cases otherFound
    rcases computed' with ⟨producer, produced, path⟩
    have reads : extended.ReadsFrom ⟨graph.nodes.size⟩ producer :=
      readsFrom_iff.mpr ⟨_, adds.live, output, by simp, produced⟩
    refine ⟨new, List.mem_iff_getElem?.mpr ⟨position, by simp [inside]⟩, ⟨graph.nodes.size⟩, ?_, ?_⟩
    · rw [same]
      exact producerId?_eq_some.mpr
        ⟨_, 0, producer?_of_output (adds.output 0 new rfl).2.2 adds.live⟩
    · rw [same]
      exact path.head reads
  · refine ⟨other, List.mem_iff_getElem?.mpr ⟨position, ?_⟩, ?_⟩
    · rw [List.getElem?_set_ne (Ne.symm replaced), otherFound]
    · rw [same]
      exact computed'

theorem Adds.wraps (formed : graph.Formed) (acyclic : graph.Acyclic)
    (adds : graph.Adds extended (if view then .view else .copy) [output] [new])
    (found : graph.outputs[index]? = some output)
    (same : changed = { extended with outputs := extended.outputs.set index new })
    (laterFormed : changed.prune.Formed) : graph.Wraps changed.prune index view output new := by
  have nodes : changed.nodes = extended.nodes := by rw [same]
  have vars : changed.vars = extended.vars := by rw [same]
  have outputs : changed.outputs = graph.outputs.set index new := by
    rw [same, ← adds.extend.outputs]
  have sameNode : ∀ id, changed.node? id = extended.node? id := by simp [node?, nodes]
  have extendedAcyclic : extended.Acyclic := acyclic.adds formed adds
  have acyclic' : changed.Acyclic := by
    rw [same]
    exact extendedAcyclic
  rcases adds.output 0 new rfl with ⟨fresh, _, kind⟩
  have kind' : (changed.var new).kind = .output ⟨graph.nodes.size⟩ 0 := by
    rw [same]
    exact kind
  have live : changed.node? ⟨graph.nodes.size⟩ = some _ := (sameNode _).trans adds.live
  refine ⟨⟨?_, ?_, ?_, ?_⟩, laterFormed, acyclic'.prune, found, outputs, fresh, ⟨_, kind'⟩, ?_⟩
  · change graph.vars.toList <+: changed.vars.toList
    rw [vars]
    exact adds.extend.vars
  · simp only [Dataflow.prune, Array.size_mapIdx, nodes]
    exact adds.extend.nodes_size
  · intro id node inside live
    rw [← adds.extend.node?_eq inside, ← sameNode]
    exact (node?_prune.mp live).1
  · intro id node live member
    have live' : changed.prune.node? id = some node := node?_prune.mpr
      ⟨(sameNode id).trans (adds.extend.live live), adds.ancestor_of_set formed found same member⟩
    exact ⟨live', pruned_prune id node live'⟩
  · have inside := (List.getElem?_eq_some_iff.mp found).1
    have member : new ∈ changed.outputs := by
      rw [outputs]
      exact List.mem_iff_getElem?.mpr ⟨index, by simp [inside]⟩
    have produced : changed.producerId? new = some ⟨graph.nodes.size⟩ :=
      producerId?_eq_some.mpr ⟨_, 0, producer?_of_output kind' live⟩
    have needed := mem_ancestorsOf.mpr ⟨new, member, _, produced, ReflTransGen.refl⟩
    have producer : changed.prune.producer? new = some _ :=
      producer?_of_output kind' (node?_prune.mpr ⟨live, needed⟩)
    simp only [storageSource?, producer]
    cases view <;> rfl

end Adds

theorem wrapOutput_eq_ok (formed : graph.Formed) (acyclic : graph.Acyclic)
    (answer : graph.wrapOutput index view = Except.ok later) :
    ∃ output new, graph.Wraps later index view output new := by
  simp only [wrapOutput, Checked.bind_eq_ok_iff, Checked.orError_eq_ok_iff] at answer
  rcases answer with ⟨output, found, new, added, replaced⟩
  have adds := addNodeSingle_eq_ok added
  have laterFormed := (formed.adds adds).replaceOutput replaced
  rcases replaceOutput_eq_ok replaced with ⟨_, _, _, _, rfl⟩
  exact ⟨output, new, adds.wraps formed acyclic found rfl laterFormed⟩

omit [Arithmetic α] in
theorem outputRoot?_eq_some {root : VarId} : graph.outputRoot? index = some root ↔
    ∃ output, graph.outputs[index]? = some output ∧ graph.aliasRoot output = root := by
  simp [outputRoot?]

section Wraps

variable (wraps : graph.Wraps later index view output new) (formed : graph.Formed)
  (acyclic : graph.Acyclic)

include wraps

theorem Wraps.output_self : later.outputs[index]? = some new := by
  have inside := (List.getElem?_eq_some_iff.mp wraps.found).1
  simp [wraps.outputs, inside]

include formed acyclic

/-- Other outputs keep their owners. -/
theorem Wraps.outputRoot?_of_ne {other : Nat} (different : other ≠ index) :
    later.outputRoot? other = graph.outputRoot? other := by
  simp only [outputRoot?, wraps.outputs, List.getElem?_set_ne (Ne.symm different)]
  cases found : graph.outputs[other]? with
  | none => rfl
  | some var =>
    have needed := needed_output formed (List.mem_of_getElem? found)
    exact congrArg some (wraps.aliasRoot_eq formed acyclic wraps.acyclic needed)

/-- A view has the owner of what it is a view of. -/
theorem Wraps.outputRoot?_view (isView : view = true) :
    later.outputRoot? index = graph.outputRoot? index := by
  have lives : later.LivesIn new output := by
    rw [LivesIn, wraps.source, if_pos isView]
  have needed := needed_output formed (List.mem_of_getElem? wraps.found)
  simp only [outputRoot?, wraps.output_self, wraps.found, Option.map_some]
  rw [wraps.acyclic.aliasRoot_eq lives, wraps.aliasRoot_eq formed acyclic wraps.acyclic needed]

omit formed acyclic in
/-- A copy owns its storage. -/
theorem Wraps.outputRoot?_copy (isCopy : view = false) : later.outputRoot? index = some new := by
  have ended : later.storageSource? new = none := by simp [wraps.source, isCopy]
  simp [outputRoot?, wraps.output_self, aliasRoot_of_none ended]

end Wraps

end Wrap

section Protect

variable [Arithmetic α] {inputs : List InputContract} {outputs : List OutputContract} {index : Nat}

/-- An output is given a copy. -/
def Copies (graph : Dataflow α) (inputs : List InputContract) (outputs : List OutputContract)
    (index : Nat) : Prop :=
  ∃ contract root, outputs[index]? = some contract ∧ graph.outputRoot? index = some root ∧
    graph.protection? graph.destroyedRoots inputs outputs index contract root = some false

/-- Outputs up to a position have been protected: those that are copied have owners of their own, and
all others have the owners they had. -/
structure Protects (graph later : Dataflow α) (inputs : List InputContract)
    (outputs : List OutputContract) (reached : Nat) : Prop extends graph.Retains later where
  formed : later.Formed
  acyclic : later.Acyclic
  length : later.outputs.length = graph.outputs.length
  roots : ∀ index, (index < reached → ¬graph.Copies inputs outputs index) →
    later.outputRoot? index = graph.outputRoot? index
  copied : ∀ index < reached, graph.Copies inputs outputs index → ∃ new,
    later.outputRoot? index = some new ∧ graph.vars.size ≤ new.index ∧
      new.index < later.vars.size ∧ ∃ id, (later.var new).kind = .output id 0
  apart : ∀ index < reached, ∀ other < reached, graph.Copies inputs outputs index →
    graph.Copies inputs outputs other → later.outputRoot? index = later.outputRoot? other →
      index = other

omit [Arithmetic α] in
theorem getElem?_drop_zipIdx {κ : Type} {items : List κ} {item : κ} {position start offset : Nat} :
    (items.zipIdx.drop start)[offset]? = some (item, position) ↔
      position = start + offset ∧ items[position]? = some item := by
  rw [List.getElem?_drop, List.getElem?_zipIdx, Option.map_eq_some_iff]
  simp only [Nat.zero_add, Prod.mk.injEq]
  constructor
  · rintro ⟨_, found, rfl, rfl⟩
    exact ⟨rfl, found⟩
  · rintro ⟨rfl, found⟩
    exact ⟨item, found, rfl, rfl⟩

omit [Arithmetic α] in
theorem mem_drop_zipIdx {κ : Type} {items : List κ} {item : κ} {position start : Nat}
    (member : (item, position) ∈ items.zipIdx.drop start) :
    start ≤ position ∧ items[position]? = some item := by
  rcases List.mem_iff_getElem?.mp member with ⟨offset, found⟩
  rcases getElem?_drop_zipIdx.mp found with ⟨rfl, found⟩
  exact ⟨Nat.le_add_right start offset, found⟩

omit [Arithmetic α] in
theorem drop_zipIdx_eq_cons {κ : Type} {items : List κ} {item : κ} {position start : Nat}
    {rest : List (κ × Nat)} (split : (item, position) :: rest = items.zipIdx.drop start) :
    start = position ∧ items[start]? = some item ∧ rest = items.zipIdx.drop (start + 1) := by
  have first : (items.zipIdx.drop start)[0]? = some (item, position) := by
    rw [← split]
    rfl
  rcases getElem?_drop_zipIdx.mp first with ⟨rfl, found⟩
  exact ⟨rfl, found, by rw [← List.tail_drop, ← split]; rfl⟩

omit [Arithmetic α] in
/-- A decision is about the owners of the outputs that follow, and about the output's own owner. -/
theorem protection?_congr {destroyed : List VarId} {contract : OutputContract} {root : VarId}
    (roots : ∀ position, index < position → later.outputRoot? position = graph.outputRoot? position)
    (sameVar : later.var root = graph.var root) :
    later.protection? destroyed inputs outputs index contract root =
      graph.protection? destroyed inputs outputs index contract root := by
  have sameFind : (outputs.zipIdx.drop (index + 1)).find?
      (fun entry => decide (later.outputRoot? entry.2 = some root)) =
        (outputs.zipIdx.drop (index + 1)).find?
          fun entry => decide (graph.outputRoot? entry.2 = some root) := by
    apply List.find?_congr
    rintro ⟨other, position⟩ member
    dsimp only
    rw [roots position (mem_drop_zipIdx member).1]
  simp only [protection?, sameFind, sameVar]

section Step

variable {current : Dataflow α} {reached : Nat} {contract : OutputContract} {root : VarId}
  (formed : graph.Formed) (acyclic : graph.Acyclic)

include formed acyclic

theorem outputRoot?_known (found : graph.outputRoot? index = some root) :
    root.index < graph.vars.size := by
  rcases outputRoot?_eq_some.mp found with ⟨output, listed, rfl⟩
  exact formed.aliasRoot_known acyclic
    (formed.read_known output (Or.inl (List.mem_of_getElem? listed)))

/-- A decision in the course of protection is the one for the original graph. -/
theorem Protects.copies_iff (protects : graph.Protects current inputs outputs reached)
    (agreed : outputs[reached]? = some contract) (found : current.outputRoot? reached = some root) :
    graph.Copies inputs outputs reached ↔
      current.protection? graph.destroyedRoots inputs outputs reached contract root = some false := by
  rw [protects.roots reached (by omega)] at found
  have sameVar := var_eq_of_further protects.vars (outputRoot?_known formed acyclic found)
  rw [protection?_congr (fun position beyond => protects.roots position (by omega)) sameVar]
  constructor
  · rintro ⟨other, root', agreed', found', decision⟩
    rw [agreed] at agreed'
    rw [found] at found'
    cases agreed'
    cases found'
    exact decision
  · exact fun decision => ⟨contract, root, agreed, found, decision⟩

omit formed acyclic in
/-- The next output is left as it is. -/
theorem Protects.pass (protects : graph.Protects current inputs outputs reached)
    (decided : ¬graph.Copies inputs outputs reached) :
    graph.Protects current inputs outputs (reached + 1) where
  toRetains := protects.toRetains
  formed := protects.formed
  acyclic := protects.acyclic
  length := protects.length
  roots index uncopied := protects.roots index fun _ => uncopied (by omega)
  copied index below copies := by
    by_cases last : index = reached
    · exact absurd copies (last ▸ decided)
    · exact protects.copied index (by omega) copies
  apart index below other below' copies copies' := by
    by_cases last : index = reached
    · exact absurd copies (last ▸ decided)
    · by_cases last' : other = reached
      · exact absurd copies' (last' ▸ decided)
      · exact protects.apart index (by omega) other (by omega) copies copies'

omit formed acyclic in
/-- The next output is wrapped. -/
theorem Protects.wrap {view : Bool} {output new : VarId}
    (protects : graph.Protects current inputs outputs reached)
    (wraps : current.Wraps later reached view output new)
    (decided : view = false ↔ graph.Copies inputs outputs reached) :
    graph.Protects later inputs outputs (reached + 1) := by
  have elsewhere : ∀ index, index ≠ reached →
      later.outputRoot? index = current.outputRoot? index := by
    intro index different
    exact wraps.outputRoot?_of_ne protects.formed protects.acyclic different
  have sizes : graph.vars.size ≤ current.vars.size := by simpa using protects.vars.length_le
  have larger : current.vars.size ≤ later.vars.size := by simpa using wraps.vars.length_le
  -- The copy made here is newer than those of earlier outputs.
  have newer : ∀ index < reached, graph.Copies inputs outputs index →
      later.outputRoot? index ≠ some new := by
    intro index below copies same
    rcases protects.copied index below copies with ⟨older, found, _, known, _⟩
    rw [elsewhere index (by omega), found] at same
    cases same
    have fresh := wraps.fresh
    omega
  refine ⟨protects.toRetains.trans wraps.toRetains, wraps.formed, wraps.acyclic, ?_, ?_, ?_, ?_⟩
  · rw [wraps.outputs, List.length_set, protects.length]
  · intro index uncopied
    by_cases last : index = reached
    · subst last
      have isView : view = true := by
        cases view with
        | true => rfl
        | false => exact absurd (decided.mp rfl) (uncopied (by omega))
      rw [wraps.outputRoot?_view protects.formed protects.acyclic isView,
        protects.roots index (by omega)]
    · rw [elsewhere index last, protects.roots index fun _ => uncopied (by omega)]
  · intro index below copies
    by_cases last : index = reached
    · subst last
      rcases wraps.kind with ⟨id, kind⟩
      exact ⟨new, wraps.outputRoot?_copy (decided.mpr copies), Nat.le_trans sizes wraps.fresh,
        known_of_kind kind, id, kind⟩
    · rcases protects.copied index (by omega) copies with ⟨older, found, fresh, known, kind⟩
      refine ⟨older, by rw [elsewhere index last, found], fresh, by omega, ?_⟩
      rwa [var_eq_of_further wraps.vars known]
  · intro index below other below' copies copies' same
    by_cases last : index = reached
    · by_cases last' : other = reached
      · rw [last, last']
      · rw [last] at same copies
        rw [wraps.outputRoot?_copy (decided.mpr copies)] at same
        exact absurd same.symm (newer other (by omega) copies')
    · by_cases last' : other = reached
      · rw [last'] at same copies'
        rw [wraps.outputRoot?_copy (decided.mpr copies')] at same
        exact absurd same (newer index (by omega) copies)
      · rw [elsewhere index last, elsewhere other last'] at same
        exact protects.apart index (by omega) other (by omega) copies copies' same

/-- Going through the outputs from a position on protects all of them. -/
theorem protectFrom_eq_ok {rest : List (OutputContract × Nat)} {count total : Nat}
    (split : rest = outputs.zipIdx.drop reached) (inside : reached ≤ outputs.length)
    (protects : graph.Protects current inputs outputs reached)
    (answer : protectFrom graph.destroyedRoots inputs outputs rest (count, current) =
      Except.ok (total, later)) : graph.Protects later inputs outputs outputs.length := by
  induction rest generalizing reached current count with
  | nil =>
    have ended : outputs.length ≤ reached := by
      simpa using List.drop_eq_nil_iff.mp split.symm
    cases answer
    rwa [Nat.le_antisymm inside ended] at protects
  | cons entry rest ih =>
    rcases entry with ⟨contract, index⟩
    rcases drop_zipIdx_eq_cons split with ⟨rfl, agreed, split'⟩
    have inside' := (List.getElem?_eq_some_iff.mp agreed).1
    simp only [protectFrom, Checked.bind_eq_ok_iff, Checked.orError_eq_ok_iff] at answer
    rcases answer with ⟨root, found, answer⟩
    have decided := protects.copies_iff formed acyclic agreed found
    cases decision : current.protection? graph.destroyedRoots inputs outputs reached _ root with
    | none =>
      rw [decision] at answer decided
      exact ih split' inside' (protects.pass (by simp [decided])) answer
    | some view =>
      rw [decision] at answer decided
      simp only [Checked.bind_eq_ok_iff] at answer
      rcases answer with ⟨wrapped, wrapping, answer⟩
      rcases wrapOutput_eq_ok protects.formed protects.acyclic wrapping with ⟨_, _, wraps⟩
      exact ih split' inside' (protects.wrap wraps (by simp [decided])) answer

theorem protectOutputs_eq_ok {count : Nat}
    (answer : graph.protectOutputs inputs outputs = Except.ok (count, later)) :
    outputs.length = graph.outputs.length ∧
      graph.Protects later inputs outputs outputs.length := by
  unfold protectOutputs at answer
  split at answer
  · rename_i length
    have start : graph.Protects graph inputs outputs 0 :=
      ⟨Retains.refl graph, formed, acyclic, rfl, fun _ _ => rfl, by simp, by simp⟩
    exact ⟨length, protectFrom_eq_ok formed acyclic (by simp) (Nat.zero_le _) start answer⟩
  · cases answer

end Step

end Protect

section Honours

variable {inputs : List InputContract} {outputs : List OutputContract} {contract : OutputContract}
  {index : Nat} {root : VarId}

/-- A contract allows an output to live in the storage of an owner. -/
structure Allows (graph : Dataflow α) (inputs : List InputContract) (contract : OutputContract)
    (root : VarId) : Prop where
  shared : contract.updateOf = none → ∀ container, (graph.var root).kind ≠ .shared container
  constant : contract.updateOf = none → ∀ value, (graph.var root).kind = .constant value →
    contract.borrow
  /-- The storage of an argument is handed out as agreed for the argument and the output, unless the
  function overwrites it. -/
  input : contract.updateOf = none → (graph.var root).kind = .input →
    ∃ input, inputs.find? (·.var = root) = some input ∧
      (input.updated = false → root ∉ graph.destroyedRoots → input.borrow ∧ contract.borrow)
  update : ∀ target, contract.updateOf = some target →
    root = target ∨ ∃ id position, (graph.var root).kind = .output id position

/-- The outputs of a graph keep their contracts, alone and towards each other. -/
structure Honours (graph : Dataflow α) (inputs : List InputContract)
    (outputs : List OutputContract) : Prop where
  owners : ∀ index contract root, outputs[index]? = some contract →
    graph.outputRoot? index = some root → graph.Allows inputs contract root
  apart : ∀ index contract other contract', outputs[index]? = some contract →
    outputs[other]? = some contract' → index ≠ other →
      graph.outputRoot? index = graph.outputRoot? other → contract.borrow ∧ contract'.borrow

/-- The next output that lives in the storage of an owner. -/
structure NextIn (graph : Dataflow α) (index next : Nat) (root : VarId) : Prop where
  beyond : index < next
  found : graph.outputRoot? next = some root
  first : ∀ between, index < between → between < next → graph.outputRoot? between ≠ some root

/-- Storage that outputs may share: its owner is one that an output which borrows may have, and the last
output that lives there borrows, unless its contract does not allow it to stay. -/
structure Lends (graph : Dataflow α) (inputs : List InputContract) (outputs : List OutputContract)
    (root : VarId) : Prop where
  unshared : ∀ container, (graph.var root).kind ≠ .shared container
  input : (graph.var root).kind = .input → ∃ input, inputs.find? (·.var = root) = some input ∧
    (input.updated = false → root ∉ graph.destroyedRoots → input.borrow)
  last : ∀ index contract, outputs[index]? = some contract → graph.outputRoot? index = some root →
    (∀ other, index < other → graph.outputRoot? other ≠ some root) →
      graph.Allows inputs contract root → contract.borrow

theorem mem_destroyedRoots :
    root ∈ graph.destroyedRoots ↔ ∃ id, graph.Overwrites id root := by
  simp only [destroyedRoots, List.mem_flatMap, Prod.exists, mem_liveNodes, List.mem_map, Overwrites]

/-- A variable that a node computes may own any output. -/
theorem allows_of_output {id : NodeId} {position : Nat}
    (kind : (graph.var root).kind = .output id position) : graph.Allows inputs contract root where
  shared _ container same := by simp [kind] at same
  constant _ value same := by simp [kind] at same
  input _ same := by simp [kind] at same
  update _ _ := Or.inr ⟨id, position, kind⟩

theorem Lends.allows (lends : graph.Lends inputs outputs root) (borrows : contract.borrow)
    (plain : contract.updateOf = none) : graph.Allows inputs contract root where
  shared _ := lends.unshared
  constant _ _ _ := borrows
  input _ kind := by
    rcases lends.input kind with ⟨input, listed, borrow⟩
    exact ⟨input, listed, fun plain unwritten => ⟨borrow plain unwritten, borrows⟩⟩
  update target updates := by simp [plain] at updates

/-- An output that is not copied and has an owner that no later output has is one whose contract
allows the owner. -/
theorem allows_of_protection? (unique : ∀ other contract', index < other →
      outputs[other]? = some contract' → graph.outputRoot? other ≠ some root)
    (decided : graph.protection? graph.destroyedRoots inputs outputs index contract root ≠
      some false) : graph.Allows inputs contract root := by
  have alone : (outputs.zipIdx.drop (index + 1)).find?
      (fun entry => decide (graph.outputRoot? entry.2 = some root)) = none := by
    apply List.find?_eq_none.mpr
    rintro ⟨other, position⟩ member
    rcases mem_drop_zipIdx member with ⟨beyond, agreed⟩
    simpa using unique position other beyond agreed
  simp only [protection?, alone] at decided
  cases updates : contract.updateOf with
  | some target =>
    simp only [updates] at decided
    refine ⟨by simp [updates], by simp [updates], by simp [updates], ?_⟩
    rintro _ same
    cases updates.symm.trans same
    cases kind : (graph.var root).kind with
    | output id position => exact Or.inr ⟨id, position, rfl⟩
    | _ => exact Or.inl (by simpa [Variable.isRoot, Variable.producer?, kind] using decided)
  | none =>
    simp only [updates] at decided
    cases kind : (graph.var root).kind with
    | output id position => exact allows_of_output kind
    | shared container => simp [kind] at decided
    | constant value =>
      exact ⟨by simp [kind], fun _ _ _ => by simpa [kind] using decided, by simp [kind],
        by simp [updates]⟩
    | input =>
      refine ⟨by simp [kind], by simp [kind], fun _ _ => ?_, by simp [updates]⟩
      simp only [kind] at decided
      cases listed : inputs.find? (·.var = root) with
      | none => simp [listed] at decided
      | some input =>
        refine ⟨input, rfl, fun plain unwritten => ?_⟩
        simpa [listed, plain, unwritten] using decided

variable [Arithmetic α]

omit [Arithmetic α] in
/-- The search for the next output with an owner finds it, or there is none. -/
theorem next_of_find? {entry : OutputContract × Nat}
    (next : (outputs.zipIdx.drop (index + 1)).find?
      (fun entry => decide (graph.outputRoot? entry.2 = some root)) = some entry) :
    outputs[entry.2]? = some entry.1 ∧ graph.NextIn index entry.2 root := by
  rcases List.find?_eq_some_iff_getElem.mp next with ⟨same, offset, inside, found, before⟩
  rcases getElem?_drop_zipIdx.mp (List.getElem?_eq_some_iff.mpr ⟨inside, found⟩) with
    ⟨place, agreed⟩
  refine ⟨agreed, by omega, by simpa using same, fun between beyond below => ?_⟩
  have early : between - (index + 1) < offset := by omega
  have here : between = index + 1 + (between - (index + 1)) := (Nat.add_sub_cancel' beyond).symm
  have passed := before _ early
  rcases getElem?_drop_zipIdx.mp (List.getElem?_eq_getElem (Nat.lt_trans early inside)) with
    ⟨position, _⟩
  rw [List.get_eq_getElem, ← here] at position
  rw [position] at passed
  simpa using passed

omit [Arithmetic α] in
/-- An output that is not copied shares its owner with the next output that has it and both borrow, or
has an owner that its contract allows and no later output has. -/
theorem lent_or_allows (agreed : outputs[index]? = some contract)
    (found : graph.outputRoot? index = some root) (uncopied : ¬graph.Copies inputs outputs index) :
    (∃ next contract', outputs[next]? = some contract' ∧ graph.NextIn index next root ∧
        contract.borrow ∧ contract'.borrow) ∨
      (∀ other contract', index < other → outputs[other]? = some contract' →
        graph.outputRoot? other ≠ some root) ∧ graph.Allows inputs contract root := by
  have decided : graph.protection? graph.destroyedRoots inputs outputs index contract root ≠
      some false := fun decision => uncopied ⟨contract, root, agreed, found, decision⟩
  cases next : (outputs.zipIdx.drop (index + 1)).find?
      (fun entry => decide (graph.outputRoot? entry.2 = some root)) with
  | some entry =>
    rcases next_of_find? next with ⟨agreed', nextIn⟩
    simp only [protection?, next] at decided
    exact Or.inl ⟨entry.2, entry.1, agreed', nextIn, by simpa using decided⟩
  | none =>
    have unique : ∀ other contract', index < other → outputs[other]? = some contract' →
        graph.outputRoot? other ≠ some root := by
      intro other contract' beyond agreed' same
      have member : (contract', other) ∈ outputs.zipIdx.drop (index + 1) :=
        List.mem_of_getElem? (i := other - (index + 1))
          (getElem?_drop_zipIdx.mpr ⟨by omega, agreed'⟩)
      simpa [same] using List.find?_eq_none.mp next _ member
    exact Or.inr ⟨unique, allows_of_protection? unique decided⟩

/-- What a contract allows it goes on allowing: the graph has not lost the nodes that overwrite the
storage of an output. -/
theorem Protects.allows {reached : Nat} (protects : graph.Protects later inputs outputs reached)
    (formed : graph.Formed) (acyclic : graph.Acyclic)
    (clear : ∀ destroyer root, graph.Overwrites destroyer root → graph.Clear destroyer root)
    (found : graph.outputRoot? index = some root) (allows : graph.Allows inputs contract root) :
    later.Allows inputs contract root := by
  have sameVar := var_eq_of_further protects.vars (outputRoot?_known formed acyclic found)
  have written : root ∈ graph.destroyedRoots → root ∈ later.destroyedRoots := by
    intro member
    rcases mem_destroyedRoots.mp member with ⟨id, overwrites⟩
    rcases outputRoot?_eq_some.mp found with ⟨output, listed, owned⟩
    have outputMem := List.mem_of_getElem? listed
    have computed := (clear id root overwrites).output output outputMem owned
    exact mem_destroyedRoots.mpr ⟨id, protects.toRetains.overwrites formed acyclic protects.acyclic
      (mem_ancestorsOf.mpr ⟨output, outputMem, computed⟩) overwrites⟩
  refine ⟨?_, ?_, ?_, ?_⟩
  · rw [sameVar]
    exact allows.shared
  · rw [sameVar]
    exact allows.constant
  · rw [sameVar]
    intro plain kind
    rcases allows.input plain kind with ⟨input, listed, borrow⟩
    exact ⟨input, listed, fun fixed unwritten => borrow fixed fun member => unwritten (written member)⟩
  · rw [sameVar]
    exact allows.update

/-- Outputs share an owner in the end only if they did so before and both borrow. -/
theorem Protects.borrow_of_same (protects : graph.Protects later inputs outputs outputs.length)
    (formed : graph.Formed) (acyclic : graph.Acyclic)
    (length : outputs.length = graph.outputs.length)
    (lends : ∀ index contract next contract' root, outputs[index]? = some contract →
      outputs[next]? = some contract' → graph.outputRoot? index = some root →
        graph.NextIn index next root → contract.borrow → contract'.borrow →
          graph.Lends inputs outputs root)
    {other : Nat} {contract' : OutputContract} (agreed : outputs[index]? = some contract)
    (agreed' : outputs[other]? = some contract') (below : index < other)
    (same : later.outputRoot? index = later.outputRoot? other) :
    contract.borrow ∧ contract'.borrow := by
  have inside := (List.getElem?_eq_some_iff.mp agreed).1
  have inside' := (List.getElem?_eq_some_iff.mp agreed').1
  -- The owner of a copy is new, and the owner of any other output is not.
  have fresh : ∀ index < outputs.length, ∀ other, graph.Copies inputs outputs index →
      ¬graph.Copies inputs outputs other →
        later.outputRoot? index ≠ later.outputRoot? other := by
    intro index inside other copies uncopied same
    rcases protects.copied index inside copies with ⟨new, found, beyond, _⟩
    rw [found, protects.roots other fun _ => uncopied] at same
    exact absurd (outputRoot?_known formed acyclic same.symm) (by omega)
  by_cases copies : graph.Copies inputs outputs index
  · by_cases copies' : graph.Copies inputs outputs other
    · exact absurd (protects.apart index inside other inside' copies copies' same) (by omega)
    · exact absurd same (fresh index inside other copies copies')
  · by_cases copies' : graph.Copies inputs outputs other
    · exact absurd same.symm (fresh other inside' index copies' copies)
    · rw [protects.roots index fun _ => copies, protects.roots other fun _ => copies'] at same
      have found : graph.outputRoot? index = some _ :=
        outputRoot?_eq_some.mpr ⟨_, List.getElem?_eq_getElem (length ▸ inside), rfl⟩
      rcases lent_or_allows agreed found copies with
        ⟨next, contract'', agreed'', nextIn, borrow, borrow''⟩ | ⟨unique, _⟩
      · have lent := lends index contract next contract'' _ agreed agreed'' found nextIn borrow borrow''
        refine ⟨borrow, ?_⟩
        -- The other output is lent as well, or it is the last one with this owner.
        rcases lent_or_allows agreed' (same ▸ found) copies' with
          ⟨_, _, _, _, borrow', _⟩ | ⟨unique', allows⟩
        · exact borrow'
        · refine lent.last other contract' agreed' (same ▸ found) (fun later beyond held => ?_) allows
          rcases outputRoot?_eq_some.mp held with ⟨_, listed, _⟩
          have known := (List.getElem?_eq_some_iff.mp listed).1
          exact unique' later _ beyond (List.getElem?_eq_getElem (length ▸ known)) held
      · exact absurd (same ▸ found) (unique other contract' below agreed')

/-- All contracts are kept if outputs that are not copied have owners that their contracts allow, and
storage in which an output and the next one both borrow is storage that may be lent. -/
theorem Protects.honours (protects : graph.Protects later inputs outputs outputs.length)
    (formed : graph.Formed) (acyclic : graph.Acyclic)
    (clear : ∀ destroyer root, graph.Overwrites destroyer root → graph.Clear destroyer root)
    (length : outputs.length = graph.outputs.length)
    (lends : ∀ index contract next contract' root, outputs[index]? = some contract →
      outputs[next]? = some contract' → graph.outputRoot? index = some root →
        graph.NextIn index next root → contract.borrow → contract'.borrow →
          graph.Lends inputs outputs root)
    (allows : ∀ index contract root, outputs[index]? = some contract →
      graph.outputRoot? index = some root → ¬graph.Copies inputs outputs index →
        graph.Allows inputs contract root) : later.Honours inputs outputs where
  owners index contract root agreed found := by
    by_cases copies : graph.Copies inputs outputs index
    · have inside := (List.getElem?_eq_some_iff.mp agreed).1
      rcases protects.copied index inside copies with ⟨new, found', _, _, id, kind⟩
      cases found.symm.trans found'
      exact allows_of_output kind
    · rw [protects.roots index fun _ => copies] at found
      exact protects.allows formed acyclic clear found (allows index contract root agreed found copies)
  apart index contract other contract' agreed agreed' different same := by
    rcases Nat.lt_or_gt_of_ne different with below | above
    · exact protects.borrow_of_same formed acyclic length lends agreed agreed' below same
    · exact (protects.borrow_of_same formed acyclic length lends agreed' agreed above same.symm).symm

/-- If no output borrows then no two outputs of a protected graph have one owner, and the contract of
each of them allows the owner it has. -/
theorem honours_of_strict {orderings : Orderings} {count : Nat} (formed : graph.Formed)
    (validated : graph.validate = Except.ok orderings)
    (strict : ∀ contract ∈ outputs, contract.borrow = false)
    (answer : graph.protectOutputs inputs outputs = Except.ok (count, later)) :
    later.Honours inputs outputs := by
  rcases formed.toWellFormed.validate_eq_ok validated with ⟨clear, before, order, ordered⟩
  have acyclic := ((safe_iff_respects clear before).mpr (respects_of_order ordered)).acyclic
  rcases protectOutputs_eq_ok formed acyclic answer with ⟨length, protects⟩
  have unlent : ∀ {index : Nat} {contract : OutputContract}, outputs[index]? = some contract →
      ¬contract.borrow := fun agreed => by simp [strict _ (List.mem_of_getElem? agreed)]
  refine protects.honours formed acyclic clear length ?_ ?_
  · exact fun _ _ _ _ _ agreed _ _ _ borrow _ => absurd borrow (unlent agreed)
  · intro index contract root agreed found uncopied
    rcases lent_or_allows agreed found uncopied with ⟨_, _, _, _, borrow, _⟩ | ⟨_, allows⟩
    · exact absurd borrow (unlent agreed)
    · exact allows

/-- Once the outputs of a valid graph have been protected, all contracts are kept, if storage in which an
output and the next one both borrow is storage that may be lent. -/
theorem honours_of_protectOutputs {orderings : Orderings} {count : Nat} (formed : graph.Formed)
    (validated : graph.validate = Except.ok orderings)
    (updates : ∀ contract ∈ outputs, contract.updateOf.isSome → contract.borrow = false)
    (lends : ∀ index contract next contract' root, outputs[index]? = some contract →
      outputs[next]? = some contract' → graph.outputRoot? index = some root →
        graph.NextIn index next root → contract.borrow → contract'.borrow →
          graph.Lends inputs outputs root)
    (answer : graph.protectOutputs inputs outputs = Except.ok (count, later)) :
    later.Honours inputs outputs := by
  rcases formed.toWellFormed.validate_eq_ok validated with ⟨clear, before, order, ordered⟩
  have acyclic := ((safe_iff_respects clear before).mpr (respects_of_order ordered)).acyclic
  rcases protectOutputs_eq_ok formed acyclic answer with ⟨length, protects⟩
  refine protects.honours formed acyclic clear length lends ?_
  intro index contract root agreed found uncopied
  rcases lent_or_allows agreed found uncopied with
    ⟨next, contract', agreed', nextIn, borrow, borrow'⟩ | ⟨_, allows⟩
  · have lent := lends index contract next contract' root agreed agreed' found nextIn borrow borrow'
    apply lent.allows borrow
    by_contra isUpdate
    have strict := updates contract (List.mem_of_getElem? agreed)
      (Option.isSome_iff_ne_none.mpr isUpdate)
    simp [borrow] at strict
  · exact allows

/-- A graph with three outputs: a negated vector twice, and the vector. -/
def negatedTwice : Dataflow Float where
  vars := #[⟨ArrayType.ofRank .float64 1, .input, some "x"⟩,
    ⟨ArrayType.ofRank .float64 1, .output ⟨0⟩ 0, none⟩]
  nodes := #[some ⟨.elementwise .neg none, [⟨0⟩], [⟨1⟩]⟩]
  inputs := [⟨0⟩]
  outputs := [⟨1⟩, ⟨1⟩, ⟨0⟩]
  guarded := []

/-- The negated vector is lent to both outputs that borrow it, and the vector is copied. -/
theorem honours_protectOutputs_negatedTwice :
    ∃ later, negatedTwice.protectOutputs [⟨⟨0⟩, true, false⟩]
        [⟨true, none⟩, ⟨true, none⟩, ⟨false, none⟩] = Except.ok (2, later) ∧
      later.Honours [⟨⟨0⟩, true, false⟩] [⟨true, none⟩, ⟨true, none⟩, ⟨false, none⟩] := by
  have formed : negatedTwice.Formed := by decide
  refine ⟨_, rfl, honours_of_protectOutputs formed rfl (by decide) ?_ rfl⟩
  intro index contract next contract' root agreed agreed' found nextIn borrow borrow'
  have owner : root = ⟨1⟩ := by
    rcases index with _ | _ | _ | index
    · exact (Option.some.inj found).symm
    · exact (Option.some.inj found).symm
    · cases agreed
      cases borrow
    · cases agreed
  subst owner
  refine ⟨nofun, nofun, fun index contract agreed found _ _ => ?_⟩
  rcases index with _ | _ | _ | index
  · cases agreed
    rfl
  · cases agreed
    rfl
  · cases found
  · cases agreed

/-- A graph with a container as both its outputs. -/
def containerTwice : Dataflow Float where
  vars := #[⟨ArrayType.ofRank .float64 1, .shared ⟨0⟩, some "w"⟩]
  nodes := #[]
  inputs := [⟨0⟩]
  outputs := [⟨0⟩, ⟨0⟩]
  guarded := []

/-- If both outputs borrow, one of them is left with the storage of the container. -/
theorem not_honours_protectOutputs_containerTwice :
    containerTwice.Formed ∧ containerTwice.validate = Except.ok .empty ∧
      ∃ later, containerTwice.protectOutputs [⟨⟨0⟩, true, false⟩] [⟨true, none⟩, ⟨true, none⟩] =
          Except.ok (2, later) ∧
        ¬later.Honours [⟨⟨0⟩, true, false⟩] [⟨true, none⟩, ⟨true, none⟩] := by
  refine ⟨by decide, rfl, _, rfl, fun honours => ?_⟩
  exact (honours.owners 0 ⟨true, none⟩ ⟨0⟩ rfl rfl).shared rfl ⟨0⟩ rfl

end Honours

end ArrayGraph.Dataflow
