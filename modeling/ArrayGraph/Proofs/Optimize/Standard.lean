import ArrayGraph.Optimize.Standard
import ArrayGraph.Proofs.Dataflow.Acyclic
import ArrayGraph.Proofs.Optimize.Merge
import ArrayGraph.Proofs.Optimize.Rules

/-!
# The standard rules

Every rule of the standard database is safe for jobs whose numbers obey the identity that the rule
rests on, with the exception of the rules that are marked as unsafe. An optimization that selects none
of those keeps all such jobs.
-/

namespace ArrayGraph

open Relation

variable {α : Type} [Arithmetic α]

namespace Dataflow

variable {graph after : Dataflow α} {id : NodeId} {node : Node α} {op : Op α}

/-- Another operation at a node leaves what outputs depend on as it was. -/
theorem Pruned.replaceNodeOp (pruned : graph.Pruned)
    (answer : graph.replaceNodeOp id op = Except.ok after) : after.Pruned := by
  have producers := producerId?_replaceNodeOp answer
  have reads := readsFrom_replaceNodeOp answer
  rcases replaceNodeOp_eq_ok answer with ⟨node, live, _, rfl⟩
  intro other content otherLive
  rcases original_of_setOp live otherLive with ⟨original, originalLive, _⟩
  rcases mem_ancestorsOf.mp (pruned other original originalLive) with
    ⟨output, member, producer, produced, path⟩
  apply mem_ancestorsOf.mpr
  refine ⟨output, member, producer, by rw [producers, produced], ?_⟩
  rw [reads]
  exact path

end Dataflow

/-- A destructive form computes the same. -/
theorem Op.evaluate_destructiveVariant? {op variant : Op α} {position : Nat}
    (found : op.destructiveVariant? position = some variant) :
    variant.IsPlain ∧ ∀ hosts operands results,
      op.evaluate hosts operands = Except.ok results →
        variant.evaluate hosts operands = Except.ok results := by
  cases op with
  | elementwise function target =>
    cases target with
    | none =>
      simp only [destructiveVariant?] at found
      split at found
      · cases found
        refine ⟨by simp [IsPlain], ?_⟩
        intro hosts operands results computed
        rw [Op.evaluate_of_table (by simp)] at computed ⊢
        simp only [Op.compute] at computed ⊢
        cases result : function.compute (Op.elementwise function none : Op α).name operands with
        | error failure =>
          rw [result] at computed
          cases computed
        | ok tensor =>
          rw [result] at computed
          rw [ScalarFunction.compute_congr result rfl rfl fun _ _ same => same]
          exact computed
      · cases found
    | some _ => cases found
  | _ => cases found

variable {setting : Setting α}

namespace Edit

theorem safe_makeNodeInPlace (id : NodeId) :
    Safe setting (makeNodeInPlace id : Edit α GraphError Bool) := by
  intro before answer after serves ran
  rw [makeNodeInPlace, bind_of_ok (graph_run before)] at ran
  cases live : before.graph.node? id with
  | none =>
    rw [live] at ran
    cases ran
    exact serves
  | some node =>
    rw [live] at ran
    dsimp only at ran
    split at ran
    · cases ran
      exact serves
    · rcases bind_eq_ok_iff.mp ran with ⟨reusable, middle, first, ran⟩
      rcases ofChecked_eq_ok_iff.mp first with ⟨_, rfl⟩
      generalize found : reusable.head?.bind node.op.destructiveVariant? = variant? at ran
      cases variant? with
      | none =>
        cases ran
        exact serves
      | some variant =>
        rcases Option.bind_eq_some_iff.mp found with ⟨position, _, found⟩
        rcases bind_eq_ok_iff.mp ran with ⟨changed, middle, second, ran⟩
        rcases ofChecked_eq_ok_iff.mp second with ⟨replaced, rfl⟩
        cases ran
        rcases Op.evaluate_destructiveVariant? found with ⟨plain, agree⟩
        refine ⟨?_, serves.pruned.replaceNodeOp replaced⟩
        exact serves.graph.replaceNodeOp live plain (agree setting.hosts) replaced

end Edit

namespace Rule

open Edit

theorem safe_makeInPlace {tags : List String} : (Rule.makeInPlace tags : Rule α).Safe setting := by
  apply Edit.Safe.mapError
  refine safe_graph.bind fun current => (safe_ofChecked _).bind fun order => ?_
  apply safe_foldlM
  intro changed id _
  exact (safe_makeNodeInPlace id).bind fun _ => safe_pure _

theorem safe_printGraph : (Rule.printGraph : Rule α).Safe setting := by
  intro before value after serves ran
  cases ran
  exact ⟨serves.graph, serves.pruned⟩

end Rule

/-- The identities that rules rest on, as far as the rules of these names go. Numbers are taken as
arrays store them, and the tests for equality are genuine. -/
structure Identities (α : Type) [Arithmetic α] (selected : String → Prop) : Prop where
  eq_of_beq : ∀ x y : α, x == y → x = y
  eq_of_identical : ∀ x y : α, Arithmetic.identical x y → x = y
  add_zero : selected "add_zero" → ∀ (element : ElementType) (x : α), element.Stores x →
    element.normalize (x + 0) = x ∧ element.normalize (0 + x) = x
  mul_one : selected "mul_one" → ∀ (element : ElementType) (x : α), element.Stores x →
    element.normalize (x * 1) = x ∧ element.normalize (1 * x) = x
  neg_neg : selected "neg_neg" → ∀ (element : ElementType) (x : α), element.Stores x →
    element.normalize (-element.normalize (-x)) = x
  /-- The sum is stored in the wider of two element types. -/
  log1p : selected "log1p" → ∀ (element other : ElementType) (x : α), element.Stores x →
    Arithmetic.log (((element.upcast other).upcast .int64).normalize (x + 1)) =
        Arithmetic.log1p x ∧
      Arithmetic.log (((other.upcast element).upcast .int64).normalize (1 + x)) =
        Arithmetic.log1p x
  log_exp : selected "log_exp" → ∀ x : α, Arithmetic.log (Arithmetic.exp x) = x
  div_by_constant : selected "div_by_constant" → ∀ (element other : ElementType) (x number : α),
    element.Stores x → other.Stores number → (number == 0) = false →
      x * (1 / number) = x / number

theorem Identities.eq_of_amounts {selected : String → Prop} (identities : Identities α selected)
    {x number : α} (amounts : Amounts x number) : x = number := by
  rcases amounts with ⟨first, same, equal⟩
  rw [← identities.eq_of_beq _ _ equal]
  rcases same with same | same
  · exact same
  · exact identities.eq_of_beq _ _ same

/-- The names of the rules that a query selects. -/
def Database.Selects (database : Database α) (query : Query) (name : String) : Prop :=
  ∃ entry ∈ database.select query, ∃ rule ∈ entry.2, rule.name = name

omit [Arithmetic α] in
theorem Database.mem_select {database : Database α} {query : Query}
    {entry : Stage α × List (Rule α)} (member : entry ∈ database.select query) :
    entry.1 ∈ database.stages ∧ ∀ rule ∈ entry.2, rule ∈ entry.1.rules := by
  rcases List.mem_filterMap.mp member with ⟨stage, admitted, found⟩
  split at found
  · cases found
  · cases found
    exact ⟨List.mem_of_mem_filter admitted, fun rule selected => List.mem_of_mem_filter selected⟩

/-- The rules of the standard database. -/
inductive Rule.IsStandard : Rule α → Prop
  | merge (tags : List String) : IsStandard (.merge tags)
  | removeIdentity : IsStandard .removeIdentity
  | addZero : IsStandard .addZero
  | mulOne : IsStandard .mulOne
  | negNeg : IsStandard .negNeg
  | subSelf : IsStandard .subSelf
  | divSelf : IsStandard .divSelf
  | log1p : IsStandard .log1p
  | logExp : IsStandard .logExp
  | mulSelf : IsStandard .mulSelf
  | divByConstant : IsStandard .divByConstant
  | makeInPlace (tags : List String) : IsStandard (.makeInPlace tags)
  | printGraph : IsStandard .printGraph

theorem Rule.isStandard_of_select {query : Query} {entry : Stage α × List (Rule α)}
    (member : entry ∈ (Database.standard : Database α).select query) {rule : Rule α}
    (selected : rule ∈ entry.2) : rule.IsStandard := by
  rcases Database.mem_select member with ⟨stage, rules⟩
  have listed := rules rule selected
  simp only [Database.standard, List.mem_cons, List.not_mem_nil, or_false] at stage
  rcases stage with same | same | same | same | same | same | same | same | same <;>
    simp only [same, Stage.merging, Stage.repeated, Stage.inPlace, Stage.printing, List.mem_cons,
      List.not_mem_nil, or_false] at listed
  · exact listed ▸ .merge _
  · exact listed ▸ .removeIdentity
  · rcases listed with rfl | rfl | rfl | rfl | rfl
    · exact .addZero
    · exact .mulOne
    · exact .negNeg
    · exact .subSelf
    · exact .divSelf
  · rcases listed with rfl | rfl
    · exact .log1p
    · exact .logExp
  · rcases listed with rfl | rfl
    · exact .mulSelf
    · exact .divByConstant
  · exact listed ▸ .merge _
  · exact listed ▸ .makeInPlace _
  · exact listed ▸ .merge _
  · exact listed ▸ .printGraph

/-- The rules of the standard database that a query selects are safe if there are no jobs, or if none
of them is marked as unsafe and the identities hold. -/
theorem Rule.safe_of_standard {query : Query}
    (sound : ∀ job, setting.jobs job → ∀ entry ∈ (Database.standard : Database α).select query,
      ∀ rule ∈ entry.2, rule.tags.contains "unsafe" = false)
    (obeyed : ∀ job, setting.jobs job →
      Identities α ((Database.standard : Database α).Selects query)) :
    ∀ entry ∈ (Database.standard : Database α).select query, ∀ rule ∈ entry.2,
      rule.Safe setting := by
  intro entry member rule selected
  have isSound : ∀ job, setting.jobs job → rule.tags.contains "unsafe" = false :=
    fun job jobMem => sound job jobMem entry member rule selected
  have isSelected : (Database.standard : Database α).Selects query rule.name :=
    ⟨entry, member, rule, selected, rfl⟩
  cases Rule.isStandard_of_select member selected with
  | merge =>
    apply safe_merge
    · exact fun job jobMem => (obeyed job jobMem).eq_of_identical
    · intro job jobMem x y same element
      rw [(obeyed job jobMem).eq_of_beq x y same]
  | removeIdentity => exact safe_removeIdentity
  | addZero =>
    apply safe_dropOperand fun _ _ => rfl
    intro job jobMem element x y stores amounts
    rw [(obeyed job jobMem).eq_of_amounts amounts]
    exact (obeyed job jobMem).add_zero isSelected element x stores
  | mulOne =>
    apply safe_dropOperand fun _ _ => rfl
    intro job jobMem element x y stores amounts
    rw [(obeyed job jobMem).eq_of_amounts amounts]
    exact (obeyed job jobMem).mul_one isSelected element x stores
  | negNeg => exact safe_negNeg fun job jobMem => (obeyed job jobMem).neg_neg isSelected
  | subSelf | divSelf => exact safe_collapse fun job jobMem => nomatch isSound job jobMem
  | log1p =>
    apply safe_log1p
    intro job jobMem element other x y stores amounts
    rw [(obeyed job jobMem).eq_of_amounts amounts]
    exact (obeyed job jobMem).log1p isSelected element other x stores
  | logExp => exact safe_logExp fun job jobMem => (obeyed job jobMem).log_exp isSelected
  | mulSelf => exact safe_mulSelf
  | divByConstant =>
    exact safe_divByConstant fun job jobMem => (obeyed job jobMem).div_by_constant isSelected
  | makeInPlace => exact safe_makeInPlace
  | printGraph => exact safe_printGraph

end ArrayGraph
