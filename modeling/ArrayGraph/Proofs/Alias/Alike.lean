import ArrayGraph.Proofs.Alias.Valid
import ArrayGraph.Proofs.Dataflow.Alike

/-!
# Storage in graphs that differ in the names of variables

An exchange of variables takes owners of storage to owners of storage. So the analysis accepts the same
destructive nodes and asks for the same orderings, although it may look at readers in another order;
the same inputs may be overwritten, and the same outputs are protected.
-/

namespace ArrayGraph

variable {α : Type}

namespace Checked

variable {ε δ β γ : Type} {related : β → γ → Prop} {first : Checked ε β} {second : Checked δ γ}

/-- Without faults it is enough that computations succeed alike. -/
theorem agree_of_faultless (faultless : first.Faultless) (faultless' : second.Faultless)
    (succeeds : (∃ value, first = Except.ok value) ↔ ∃ value, second = Except.ok value)
    (same : ∀ value value', first = Except.ok value → second = Except.ok value' →
      related value value') : first.Agree related second := by
  match ran : first, ran' : second with
  | .ok value, .ok value' => exact .ok (same value value' rfl rfl)
  | .ok value, .error failure => exact absurd (succeeds.mp ⟨value, rfl⟩) (by simp)
  | .error failure, .ok value' => exact absurd (succeeds.mpr ⟨value', rfl⟩) (by simp)
  | .error (.fault broken), _ => exact absurd rfl (faultless broken)
  | _, .error (.fault broken) => exact absurd rfl (faultless' broken)
  | .error (.error cause), .error (.error cause') => exact .error (.error trivial)

end Checked

/-- A destructive node with other variables. -/
def Dataflow.Destroyer.rename (σ : VarId → VarId) (destroyer : Dataflow.Destroyer α) :
    Dataflow.Destroyer α :=
  { destroyer with node := destroyer.node.rename σ }

/-- A contract that speaks of other variables. -/
def OutputContract.rename (σ : VarId → VarId) (contract : OutputContract) : OutputContract :=
  { contract with updateOf := contract.updateOf.map σ }

namespace Orderings

/-- What becomes of one reader, by the verdict on it. -/
theorem collects_verdict {ε : Type} (id : NodeId) (verdict : Checked ε (Option NodeId)) :
    Collects
      (fun known => do
        match ← verdict with
        | some reader => Except.ok (known.insert id reader)
        | none => Except.ok known)
      (∃ answer, verdict = Except.ok answer)
      (fun earlier later => later = id ∧ verdict = Except.ok (some earlier)) := by
  match verdict with
  | .error failure => exact ⟨by simp, by simp⟩
  | .ok none =>
    refine ⟨by simp, fun known next ran earlier later => ?_⟩
    cases ran
    simp
  | .ok (some reader) =>
    refine ⟨by simp, fun known next ran earlier later => ?_⟩
    cases ran
    rw [mem_before_insert]
    simp only [Except.ok.injEq, Option.some.injEq]
    constructor
    · rintro (⟨rfl, rfl⟩ | listed)
      · exact Or.inr ⟨rfl, rfl⟩
      · exact Or.inl listed
    · rintro (listed | ⟨rfl, rfl⟩)
      · exact Or.inr listed
      · exact Or.inl ⟨rfl, rfl⟩

theorem Collects.congr {ε : Type} {check : Orderings → Checked ε Orderings} {good good' : Prop}
    {adds adds' : NodeId → NodeId → Prop} (collects : Collects check good adds)
    (goods : good' ↔ good) (same : ∀ earlier later, adds' earlier later ↔ adds earlier later) :
    Collects check good' adds' where
  succeeds known := (collects.succeeds known).trans goods.symm
  before known next ran earlier later := by rw [collects.before known next ran, same]

end Orderings

namespace Dataflow

variable {σ : VarId → VarId} {π : Equiv.Perm Nat} {graph other : Dataflow α} {id earlier : NodeId}
  {node : Node α}
  {root var : VarId} {destroyer : Destroyer α}

theorem positions_eq_of_forall₂ {κ : Type} [DecidableEq κ] {items items' : List κ} {item : κ}
    (same : List.Forall₂ (fun one other => one = item ↔ other = item) items items') :
    positions items item = positions items' item := by
  unfold positions
  generalize 0 = start
  induction same generalizing start with
  | nil => rfl
  | cons head _ ih => simp only [List.zipIdx_cons, List.filterMap_cons, head, ih]

theorem overwritten_rename (node : Node α) :
    overwritten (node.rename σ) = (overwritten node).map σ := by
  simp only [overwritten, Node.rename, List.map_filterMap, List.getElem?_map]

namespace Alike

variable (alike : graph.Alike σ π other)

include alike

theorem storageSource?_eq (var : VarId) :
    other.storageSource? (σ var) = (graph.storageSource? var).map σ := by
  rw [storageSource?, storageSource?, alike.producer?_eq]
  cases graph.producer? var with
  | none => rfl
  | some produced =>
    rcases produced with ⟨id, node, index⟩
    simp only [Option.map_some, Node.rename, List.getElem?_map]
    split <;> rfl

theorem aliasRoot_eq (var : VarId) : other.aliasRoot (σ var) = σ (graph.aliasRoot var) := by
  have within : ∀ steps var, other.aliasRootWithin steps (σ var) =
      σ (graph.aliasRootWithin steps var) := by
    intro steps
    induction steps with
    | zero => exact fun _ => rfl
    | succ steps ih =>
      intro var
      rw [aliasRootWithin, aliasRootWithin, alike.storageSource?_eq]
      cases graph.storageSource? var with
      | none => rfl
      | some source => exact ih source
  rw [aliasRoot, aliasRoot, alike.vars, within]

theorem mem_viewTree_iff : σ var ∈ other.viewTree (σ root) ↔ var ∈ graph.viewTree root := by
  rw [mem_viewTree, mem_viewTree, alike.mem_liveVars_iff, alike.aliasRoot_eq,
    alike.exchanges.eq_iff]

theorem isProtected_eq (root : VarId) : other.isProtected (σ root) = graph.isProtected root := by
  have fixed : other.isFixed (σ root) = graph.isFixed root := by
    rw [isFixed, isFixed, alike.kind_eq]
    split <;> simp only [alike.mem_inputs_iff]
  simp only [isProtected, fixed, alike.guarded]

variable [Arithmetic α]

omit [Arithmetic α] in
theorem mem_membersBefore_iff :
    σ var ∈ other.membersBefore (destroyer.rename σ) (σ root) ↔
      var ∈ graph.membersBefore destroyer root := by
  rw [membersBefore, membersBefore, List.mem_filter, List.mem_filter, alike.mem_viewTree_iff,
    alike.producerId?_eq]
  rfl

theorem checkReader (destroyer : Destroyer α) (root member : VarId) (client : Client) :
    (graph.checkReader destroyer root member client).Agree Eq
      (other.checkReader (destroyer.rename σ) (σ root) (σ member) client) := by
  cases client with
  | output index => exact Checked.alike_raise trivial
  | node reader position =>
    unfold Dataflow.checkReader
    simp only [alike.node?_eq]
    cases graph.node? reader with
    | none => exact .ok rfl
    | some content =>
      have overwrites : (overwritten (content.rename σ)).any (other.aliasRoot · = σ root) =
          (overwritten content).any (graph.aliasRoot · = root) := by
        simp only [overwritten_rename, List.any_map, Function.comp_def, alike.aliasRoot_eq,
          alike.exchanges.eq_iff]
      simp only [Option.map_some, overwrites]
      refine .ite Iff.rfl (.ok rfl) (.ite Iff.rfl (Checked.alike_raise trivial) ?_)
      exact .ite Iff.rfl (Checked.alike_raise trivial) (.ok rfl)

end Alike

section Validating

variable [Arithmetic α]

/-- A reader that the analysis looks at when a node overwrites a variable. -/
def Concerns (graph : Dataflow α) (destroyer : Destroyer α) (target member : VarId)
    (client : Client) : Prop :=
  member ∈ graph.membersBefore destroyer (graph.aliasRoot target) ∧ client ∈ graph.clients member

/-- A node may overwrite a variable as far as protection and readers go. -/
def Permits (graph : Dataflow α) (destroyer : Destroyer α) (target : VarId) : Prop :=
  ¬graph.isProtected (graph.aliasRoot target) ∧
    ∀ member client, graph.Concerns destroyer target member client →
      ∃ answer, graph.checkReader destroyer (graph.aliasRoot target) member client = Except.ok answer

/-- A reader that must come before a node that overwrites a variable. -/
def Awaits (graph : Dataflow α) (destroyer : Destroyer α) (target : VarId) (earlier : NodeId) : Prop :=
  ∃ member client, graph.Concerns destroyer target member client ∧
    graph.checkReader destroyer (graph.aliasRoot target) member client = Except.ok (some earlier)

theorem collects_checkOverwrite (graph : Dataflow α) (destroyer : Destroyer α) (target : VarId) :
    Orderings.Collects (graph.checkOverwrite destroyer · target) (graph.Permits destroyer target)
      (fun earlier later => later = destroyer.id ∧ graph.Awaits destroyer target earlier) := by
  unfold checkOverwrite
  by_cases guarded : graph.isProtected (graph.aliasRoot target)
  · simp only [guarded, if_true]
    exact ⟨by simp [Permits, guarded], by simp⟩
  · simp only [guarded, Bool.false_eq_true, if_false]
    have each := Orderings.Collects.foldlM
      ((graph.membersBefore destroyer (graph.aliasRoot target)).flatMap fun member =>
        (graph.clients member).map fun client => (member, client))
      fun entry _ => Orderings.collects_verdict destroyer.id
        (graph.checkReader destroyer (graph.aliasRoot target) entry.1 entry.2)
    have listed : ∀ member client, (member, client) ∈ (graph.membersBefore destroyer
        (graph.aliasRoot target)).flatMap (fun member =>
          (graph.clients member).map fun client => (member, client)) ↔
        graph.Concerns destroyer target member client := by
      simp [Concerns]
    refine each.congr ?_ fun earlier later => ?_
    · simp only [Permits, guarded, Bool.false_eq_true, not_false_eq_true, true_and, Prod.forall, listed]
    · simp only [Awaits, Prod.exists, listed]
      constructor
      · rintro ⟨same, member, client, concerns, verdict⟩
        exact ⟨member, client, concerns, same, verdict⟩
      · rintro ⟨member, client, concerns, same, verdict⟩
        exact ⟨same, member, client, concerns, verdict⟩

theorem collects_checkDestroyer (graph : Dataflow α) (id : NodeId) (node : Node α) :
    Orderings.Collects (graph.checkDestroyer · id node)
      (∀ target ∈ overwritten node, graph.Permits (graph.destroyerOf id node) target)
      (fun earlier later => ∃ target ∈ overwritten node,
        later = id ∧ graph.Awaits (graph.destroyerOf id node) target earlier) := by
  unfold checkDestroyer
  by_cases destructive : node.op.isDestructive
  · simp only [destructive, if_true]
    exact .foldlM _ fun target _ => graph.collects_checkOverwrite (graph.destroyerOf id node) target
  · simp only [destructive, Bool.false_eq_true, if_false]
    have none : ∀ target, target ∉ overwritten node := fun target member =>
      destructive (isDestructive_of_overwritten member)
    refine ⟨by simp [none], fun known next ran earlier later => ?_⟩
    cases ran
    simp [none]

/-- What `validate` looks for. -/
theorem collects_validate (graph : Dataflow α) :
    Orderings.Collects
      (fun known => graph.liveNodes.foldlM (fun known (id, node) =>
        graph.checkDestroyer known id node) known)
      (∀ entry ∈ graph.liveNodes, ∀ target ∈ overwritten entry.2,
        graph.Permits (graph.destroyerOf entry.1 entry.2) target)
      (fun earlier later => ∃ entry ∈ graph.liveNodes, ∃ target ∈ overwritten entry.2,
        later = entry.1 ∧ graph.Awaits (graph.destroyerOf entry.1 entry.2) target earlier) :=
  .foldlM _ fun entry _ => graph.collects_checkDestroyer entry.1 entry.2

namespace Alike

variable (alike : graph.Alike σ π other)

include alike

omit [Arithmetic α] in
theorem destroyerOf_eq (id : NodeId) (node : Node α) :
    other.destroyerOf id (node.rename σ) = (graph.destroyerOf id node).rename σ := by
  simp only [destroyerOf, Destroyer.rename, alike.descendants_eq, Node.rename, alike.ancestorsOf_eq]

omit [Arithmetic α] in
theorem concerns_iff {target member : VarId} {client : Client} :
    other.Concerns (destroyer.rename σ) (σ target) (σ member) client ↔
      graph.Concerns destroyer target member client := by
  rw [Concerns, Concerns, alike.aliasRoot_eq, alike.mem_membersBefore_iff, alike.clients_eq]

theorem permits_iff {target : VarId} :
    other.Permits (destroyer.rename σ) (σ target) ↔ graph.Permits destroyer target := by
  unfold Permits
  rw [alike.aliasRoot_eq, alike.isProtected_eq]
  refine and_congr_right' ⟨fun permits member client concerns => ?_,
    fun permits member client concerns => ?_⟩
  · rcases permits (σ member) client (alike.concerns_iff.mpr concerns) with ⟨answer, passed⟩
    exact (alike.checkReader destroyer _ member client).succeeds_iff.mpr ⟨answer, passed⟩
  · rw [← alike.exchanges.involutive member] at concerns ⊢
    exact (alike.checkReader destroyer _ (σ member) client).succeeds_iff.mp
      (permits (σ member) client (alike.concerns_iff.mp concerns))

theorem awaits_iff {target : VarId} :
    other.Awaits (destroyer.rename σ) (σ target) earlier ↔ graph.Awaits destroyer target earlier := by
  unfold Awaits
  rw [alike.aliasRoot_eq]
  constructor
  · rintro ⟨member, client, concerns, verdict⟩
    rw [← alike.exchanges.involutive member] at concerns verdict
    exact ⟨σ member, client, alike.concerns_iff.mp concerns,
      (alike.checkReader destroyer _ _ client).eq_ok_iff.mpr verdict⟩
  · rintro ⟨member, client, concerns, verdict⟩
    exact ⟨σ member, client, alike.concerns_iff.mpr concerns,
      (alike.checkReader destroyer _ member client).eq_ok_iff.mp verdict⟩

/-- Both graphs are valid or neither is, and the same orderings make them so. -/
theorem validate : graph.validate.Agree Orderings.Same other.validate := by
  have goods : (∀ entry ∈ other.liveNodes, ∀ target ∈ overwritten entry.2,
      other.Permits (other.destroyerOf entry.1 entry.2) target) ↔
        ∀ entry ∈ graph.liveNodes, ∀ target ∈ overwritten entry.2,
          graph.Permits (graph.destroyerOf entry.1 entry.2) target := by
    simp only [alike.liveNodes_eq, List.forall_mem_map, overwritten_rename, alike.destroyerOf_eq,
      alike.permits_iff]
  have adds : ∀ earlier later : NodeId,
      (∃ entry ∈ other.liveNodes, ∃ target ∈ overwritten entry.2,
        later = entry.1 ∧ other.Awaits (other.destroyerOf entry.1 entry.2) target earlier) ↔
      ∃ entry ∈ graph.liveNodes, ∃ target ∈ overwritten entry.2,
        later = entry.1 ∧ graph.Awaits (graph.destroyerOf entry.1 entry.2) target earlier := by
    intro earlier later
    simp only [alike.liveNodes_eq, List.mem_map, exists_exists_and_eq_and, overwritten_rename,
      alike.destroyerOf_eq, alike.awaits_iff]
  have collects := graph.collects_validate
  have collects' := other.collects_validate.congr goods.symm fun earlier later =>
    (adds earlier later).symm
  have same : ∀ orderings orderings',
      graph.liveNodes.foldlM (fun known (id, node) => graph.checkDestroyer known id node)
        Orderings.empty = Except.ok orderings →
      other.liveNodes.foldlM (fun known (id, node) => other.checkDestroyer known id node)
        Orderings.empty = Except.ok orderings' → orderings.Same orderings' := by
    intro orderings orderings' ran ran' earlier later
    rw [collects.before _ _ ran, collects'.before _ _ ran']
  have swept := Checked.agree_of_faultless (faultless_checkDestroyers graph _)
    (faultless_checkDestroyers other _)
    ((collects.succeeds Orderings.empty).trans (collects'.succeeds Orderings.empty).symm) same
  refine swept.bind fun orderings orderings' same => ?_
  have ordered := alike.order_alike same
  cases ran : graph.order orderings <;> cases ran' : other.order orderings' <;>
    rw [ran, ran'] at ordered
  · exact Checked.alike_raise trivial
  · cases ordered
  · cases ordered
  · exact .ok same

end Alike

end Validating

section Reusing

variable [Arithmetic α]

/-- No input is added with a view or a copy. -/
theorem kind_of_wrapOutput {after : Dataflow α} {index : Nat} {view : Bool}
    (wrapped : graph.wrapOutput index view = Except.ok after)
    (kind : (after.var var).kind = .input) : (graph.var var).kind = .input := by
  simp only [wrapOutput, Checked.bind_eq_ok_iff, Checked.orError_eq_ok_iff] at wrapped
  rcases wrapped with ⟨output, _, new, added, replaced⟩
  rcases replaceOutput_eq_ok replaced with ⟨_, _, _, _, rfl⟩
  by_cases known : var.index < graph.vars.size
  · rw [← (addNodeSingle_eq_ok added).extend.var_eq known]
    exact kind
  · rw [var_default (Nat.le_of_not_lt known)]
    rfl

namespace Alike

variable (alike : graph.Alike σ π other)

include alike

theorem inputLivenessAt (id : NodeId) (node : Node α) (position : Nat) :
    (graph.inputLivenessAt id node position).Agree
      (fun liveness liveness' => liveness = .unique ↔ liveness' = .unique)
      (other.inputLivenessAt id (node.rename σ) position) := by
  unfold Dataflow.inputLivenessAt
  simp only [Node.rename, alike.types_eq]
  cases node.op.destructiveVariant? position with
  | none => exact .ok Iff.rfl
  | some variant =>
    refine .ite Iff.rfl ?_ (.ok Iff.rfl)
    refine (alike.replaceNodeOp id variant).bind fun trial trial' alike => ?_
    have validated := alike.validate
    generalize trial.validate = answer at validated ⊢
    generalize trial'.validate = answer' at validated ⊢
    cases validated with
    | ok => exact .ok Iff.rfl
    | error same =>
      cases same with
      | error => exact .ok (by simp)
      | fault broken broken' => exact Checked.alike_abort broken broken'

/-- Nodes may overwrite the same inputs. -/
theorem reusableInputs (id : NodeId) :
    (graph.reusableInputs id).Agree Eq (other.reusableInputs id) := by
  have liveness : (graph.inputLiveness id).Agree
      (List.Forall₂ fun liveness liveness' => liveness = .unique ↔ liveness' = .unique)
      (other.inputLiveness id) := by
    refine (alike.getNode id).bind ?_
    rintro node _ rfl
    simp only [Node.rename, List.length_map]
    refine .mapM (paired_self _) ?_
    rintro _ position ⟨rfl, -⟩
    exact alike.inputLivenessAt id node position
  exact liveness.bind fun _ _ same => .ok (positions_eq_of_forall₂ same)

theorem wrapOutput (index : Nat) (view : Bool) :
    (graph.wrapOutput index view).Agree (Alike σ π) (other.wrapOutput index view) := by
  refine (alike.output_agree index).bind ?_
  rintro output _ rfl
  have added := alike.addNodeSingle (if view then .view else .copy) [output]
  refine added.1.bind ?_
  rintro wrapped _ rfl
  exact added.2.replaceOutput index wrapped

theorem checkNoInPlace : graph.checkNoInPlace.Agree Eq other.checkNoInPlace := by
  unfold Dataflow.checkNoInPlace
  rw [alike.liveNodes_eq, List.find?_map]
  simp only [Function.comp_def, Node.rename_op]
  cases graph.liveNodes.find? fun entry => entry.2.op.isDestructive with
  | none => exact .ok rfl
  | some entry => exact Checked.alike_raise trivial

omit [Arithmetic α] in
theorem destroyedRoots_eq : other.destroyedRoots = graph.destroyedRoots.map σ := by
  simp only [destroyedRoots, alike.liveNodes_eq, List.flatMap_map, List.map_flatMap,
    overwritten_rename, List.map_map, Function.comp_def, alike.aliasRoot_eq]

omit [Arithmetic α] in
theorem outputRoot?_eq (index : Nat) :
    other.outputRoot? index = (graph.outputRoot? index).map σ := by
  simp only [outputRoot?, alike.outputs, List.getElem?_map, Option.map_map, Function.comp_def,
    alike.aliasRoot_eq]

omit [Arithmetic α] in
theorem outputRoot?_agree (index : Nat) :
    (Checked.orError (graph.outputRoot? index) (GraphError.noSuchOutput index)).Agree
      (fun root root' => root' = σ root)
      (Checked.orError (other.outputRoot? index) (GraphError.noSuchOutput index)) := by
  refine Checked.alike_orError ?_ trivial
  rw [alike.outputRoot?_eq]
  cases graph.outputRoot? index with
  | none => exact .none
  | some root => exact .some rfl

omit [Arithmetic α] in
/-- The next output in the same storage is the same one. -/
theorem laterOutput?_eq (outputs : List OutputContract) (index : Nat) (root : VarId) :
    ((outputs.map (·.rename σ)).zipIdx.drop (index + 1)).find?
        (fun (_, position) => other.outputRoot? position = some (σ root)) =
      ((outputs.zipIdx.drop (index + 1)).find? fun (_, position) =>
        graph.outputRoot? position = some root).map fun (contract, position) =>
          (contract.rename σ, position) := by
  have rooted : ∀ position, other.outputRoot? position = some (σ root) ↔
      graph.outputRoot? position = some root := by
    intro position
    rw [alike.outputRoot?_eq, Option.map_eq_some_iff]
    simp only [alike.exchanges.eq_iff, exists_eq_right]
  rw [List.zipIdx_map, ← List.map_drop, List.find?_map]
  simp only [Function.comp_def, Prod.map, rooted, id]
  rfl

section Contracts

variable {inputs inputs' : List InputContract} {outputs : List OutputContract}
  (same : ∀ var, (graph.var var).kind = .input →
    inputs'.find? (·.var = var) = inputs.find? (·.var = var))

include same

omit [Arithmetic α] in
theorem protection?_eq (destroyed : List VarId) (index : Nat) (contract : OutputContract)
    (root : VarId) :
    other.protection? (destroyed.map σ) inputs' (outputs.map (·.rename σ)) index (contract.rename σ)
        (σ root) =
      graph.protection? destroyed inputs outputs index contract root := by
  have written : (contract.rename σ).updateOf = contract.updateOf.map σ := rfl
  have borrowed : ∀ contract : OutputContract, (contract.rename σ).borrow = contract.borrow :=
    fun _ => rfl
  have rooted : (other.var (σ root)).isRoot = (graph.var root).isRoot := by
    simp only [Variable.isRoot, Variable.producer?, alike.kind_eq]
  unfold protection?
  rw [alike.laterOutput?_eq outputs index root, written, alike.kind_eq]
  generalize List.find? _ (outputs.zipIdx.drop (index + 1)) = later
  cases later with
  | some found => rfl
  | none =>
    cases contract.updateOf with
    | some target =>
      simp only [Option.map_none, Option.map_some, ne_eq, alike.exchanges.eq_iff, rooted]
    | none =>
      cases kind : (graph.var root).kind with
      | input =>
        have fixed : σ root = root := alike.exchanges.fixes_of_kind (by simp [kind])
        have overwritten : σ root ∈ destroyed.map σ ↔ root ∈ destroyed :=
          alike.exchanges.mem_map_iff
        rw [fixed] at overwritten
        simp only [Option.map_none, fixed, same root kind, borrowed, overwritten]
      | _ => rfl

omit alike same in
/-- The same outputs are wrapped. -/
theorem protectFrom (alike : graph.Alike σ π other) (same : ∀ var, (graph.var var).kind = .input →
      inputs'.find? (·.var = var) = inputs.find? (·.var = var))
    {destroyed : List VarId} {rest : List (OutputContract × Nat)} {count : Nat} :
    (Dataflow.protectFrom destroyed inputs outputs rest (count, graph)).Agree
      (fun wrapped wrapped' => wrapped'.1 = wrapped.1 ∧ wrapped.2.Alike σ π wrapped'.2)
      (Dataflow.protectFrom (destroyed.map σ) inputs' (outputs.map (·.rename σ))
        (rest.map fun (contract, index) => (contract.rename σ, index)) (count, other)) := by
  induction rest generalizing graph other count with
  | nil => exact .ok ⟨rfl, alike⟩
  | cons entry rest ih =>
    rcases entry with ⟨contract, index⟩
    simp only [List.map_cons, Dataflow.protectFrom]
    refine (alike.outputRoot?_agree index).bind ?_
    rintro root _ rfl
    rw [alike.protection?_eq same]
    cases graph.protection? destroyed inputs outputs index contract root with
    | none => exact ih alike same
    | some view =>
      refine (alike.wrapOutput index view).bind_of_ok fun after after' wrapped _ alike => ?_
      exact ih alike fun var kind => same var (kind_of_wrapOutput wrapped kind)

theorem protectOutputs :
    (graph.protectOutputs inputs outputs).Agree
      (fun wrapped wrapped' => wrapped'.1 = wrapped.1 ∧ wrapped.2.Alike σ π wrapped'.2)
      (other.protectOutputs inputs' (outputs.map (·.rename σ))) := by
  unfold Dataflow.protectOutputs
  simp only [alike.outputs, List.length_map, alike.destroyedRoots_eq, List.zipIdx_map]
  refine .ite Iff.rfl ?_ (Checked.alike_abort _ _)
  exact alike.protectFrom same

end Contracts

end Alike

end Reusing

end Dataflow

end ArrayGraph
