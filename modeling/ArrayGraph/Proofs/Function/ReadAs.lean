import ArrayGraph.Proofs.Dataflow.ReadAs
import ArrayGraph.Proofs.Function.Compiled

/-!
# Signatures of functions that read some variables for others

Several variables may stand for one container. If some of them are read for others then the same
arguments are declared and the same containers are read and updated, although other variables may stand
for the containers that are read without being declared, and in another order.
-/

namespace ArrayGraph

open Relation

variable {α : Type} {source : Graph α} {f : VarId → VarId}

/-- A declared input whose update reads other variables. -/
def InputSpec.readAs (f : VarId → VarId) (input : InputSpec) : InputSpec :=
  { input with update := input.update.map f }

/-- A declared output that reads other variables. -/
def OutputSpec.readAs (f : VarId → VarId) (output : OutputSpec) : OutputSpec :=
  { output with var := f output.var }

/-- What to compile if other variables are read. Declared inputs and the targets of updates stay as they
are. -/
def FunctionSpec.readAs (f : VarId → VarId) (spec : FunctionSpec) : FunctionSpec :=
  { spec with
    inputs := spec.inputs.map (InputSpec.readAs f)
    outputs := spec.outputs.map (OutputSpec.readAs f)
    updates := spec.updates.map fun (target, expression) => (target, f expression) }

/-- A container whose update reads other variables. -/
def SharedSlot.readAs (f : VarId → VarId) (slot : SharedSlot) : SharedSlot :=
  { slot with update := slot.update.map f }

/-- A signature whose outputs and updates read other variables. -/
def Signature.readAs (f : VarId → VarId) (signature : Signature) : Signature :=
  { signature with
    shared := signature.shared.map (SharedSlot.readAs f)
    outputs := signature.outputs.map (OutputSpec.readAs f) }

namespace Graph

theorem operands_readAs (id : VarId) : (source.readAs f).operands id = (source.operands id).map f := by
  simp only [operands, readAs, Array.getElem?_map]
  split
  · rename_i node _ _
    cases source.nodes[node.index]? <;> rfl
  · rfl

theorem operands_eq_nil {id : VarId} {container : ContainerId}
    (kind : source.HasKind id (.shared container)) : source.operands id = [] := by
  rcases kind with ⟨var, found, kind⟩
  simp [operands, found, Variable.producer?, kind]

/-- What some variables are or depend on. -/
def Reaches (source : Graph α) (vars : List VarId) (id : VarId) : Prop :=
  ∃ origin ∈ vars, ReflTransGen (Leads source.operands) origin id

theorem rootsOf_reaches (source : Graph α)
    (known : ∀ var, ∀ operand ∈ source.operands var, operand.index < source.vars.size)
    {ε : Type} {vars roots : List VarId}
    (answer : (source.rootsOf vars : Checked ε (List VarId)) = Except.ok roots) :
    (∀ id ∈ roots, id.index < source.vars.size) ∧ ∀ id container,
      source.HasKind id (.shared container) → (id ∈ roots ↔ source.Reaches vars id) := by
  simp only [Graph.rootsOf, Checked.bind_eq_ok_iff] at answer
  rcases answer with ⟨_, checked, same⟩
  cases same
  have mem_points : ∀ id : VarId, id ∈ (List.range source.vars.size).map VarId.mk ↔
      id.index < source.vars.size := by
    rintro ⟨index⟩
    simp
  have start : ∀ var ∈ vars, var ∈ (List.range source.vars.size).map VarId.mk := by
    intro var member
    have found := Checked.forM_eq_ok_iff.mp checked var member
    cases looked : (source.getVar var : Checked ε Variable) with
    | error failure =>
      rw [looked] at found
      cases found
    | ok content =>
      exact (mem_points var).mpr (Array.getElem?_eq_some_iff.mp (getVar_eq_ok.mp looked)).1
  refine ⟨fun id member => (mem_points id).mp (List.mem_filter.mp member).1, ?_⟩
  rintro id container ⟨content, found, kind⟩
  have inside := (Array.getElem?_eq_some_iff.mp found).1
  have reached : id ∈ closure source.operands source.vars.size vars ↔ source.Reaches vars id :=
    mem_closure_iff (fun origin target member => (mem_points target).mpr (known origin target member))
      start (by simp)
  have root : (source.vars[id.index]?.bind Variable.producer?).isNone := by
    simp [found, Variable.producer?, kind]
  simp only [List.mem_filter, mem_points, inside, root, reached, Bool.and_true, decide_eq_true_eq,
    true_and]

namespace Interchanges

variable (interchanges : source.Interchanges f)

include interchanges

theorem hasKind_iff (id : VarId) (container : ContainerId) :
    source.HasKind (f id) (.shared container) ↔ source.HasKind id (.shared container) := by
  by_cases moved : f id = id
  · rw [moved]
  · rcases interchanges id moved with ⟨var, var', other, found, found', kind, kind', _⟩
    simp only [HasKind, found, found', Option.some.injEq, exists_eq_left', kind, kind']

theorem operands_known
    (known : ∀ var, ∀ operand ∈ source.operands var, operand.index < source.vars.size) :
    ∀ var, ∀ operand ∈ (source.readAs f).operands var, operand.index < source.vars.size := by
  intro var operand member
  rw [operands_readAs] at member
  rcases List.mem_map.mp member with ⟨original, isOperand, rfl⟩
  exact (interchanges.known_iff original).mpr (known var original isOperand)

theorem reaches_iff (vars : List VarId) (id : VarId) :
    (source.readAs f).Reaches (vars.map f) id ↔ ∃ before, source.Reaches vars before ∧ f before = id := by
  -- A variable that is read as another one, or that another one is read as, has no operands.
  have still : ∀ id, source.operands id ≠ [] ∨ source.operands (f id) ≠ [] → f id = id := by
    intro id operands
    by_contra moved
    rcases interchanges id moved with ⟨var, var', container, found, found', kind, kind', _⟩
    rcases operands with operands | operands
    · exact operands (operands_eq_nil ⟨var, found, kind⟩)
    · exact operands (operands_eq_nil ⟨var', found', kind'⟩)
  constructor
  · rintro ⟨_, listed, path⟩
    rcases List.mem_map.mp listed with ⟨origin, start, rfl⟩
    induction path with
    | refl => exact ⟨origin, ⟨origin, start, .refl⟩, rfl⟩
    | tail _ lead ih =>
      rcases ih with ⟨before, ⟨origin, start, path⟩, rfl⟩
      rw [Leads, operands_readAs] at lead
      rcases List.mem_map.mp lead with ⟨operand, member, rfl⟩
      have same := still before (Or.inr (List.ne_nil_of_mem member))
      rw [same] at member
      exact ⟨operand, ⟨origin, start, path.tail member⟩, rfl⟩
  · rintro ⟨before, ⟨origin, start, path⟩, rfl⟩
    refine ⟨f origin, List.mem_map_of_mem start, ?_⟩
    induction path with
    | refl => exact .refl
    | @tail middle last _ lead ih =>
      have same := still middle (Or.inl (List.ne_nil_of_mem lead))
      refine ih.tail ?_
      rw [Leads, operands_readAs, same]
      exact List.mem_map_of_mem lead

/-- Outputs and updates depend on the same containers. -/
theorem rootsOf_agree {ε : Type}
    (known : ∀ var, ∀ operand ∈ source.operands var, operand.index < source.vars.size)
    (vars : List VarId) :
    (source.rootsOf vars : Checked ε (List VarId)).Agree
      (fun roots roots' => (∀ id ∈ roots, id.index < source.vars.size) ∧
        (∀ id ∈ roots', id.index < source.vars.size) ∧ ∀ container,
          (∃ id ∈ roots', source.HasKind id (.shared container)) ↔
            ∃ id ∈ roots, source.HasKind id (.shared container))
      ((source.readAs f).rootsOf (vars.map f) : Checked ε (List VarId)) := by
  have checks : (vars.forM fun id => discard (source.getVar id) : Checked ε Unit).Agree Eq
      ((vars.map f).forM fun id => discard ((source.readAs f).getVar id) : Checked ε Unit) := by
    refine .forM (paired_map f vars) ?_
    rintro id _ ⟨rfl, -⟩
    have found : ∀ id : VarId, (discard (source.getVar id) : Checked ε Unit) =
        if id.index < source.vars.size then Except.ok ()
        else Checked.abort (.noSuchVariable id.index) := by
      intro id
      by_cases known : id.index < source.vars.size
      · rw [if_pos known, getVar, Array.getElem?_eq_getElem known]
        rfl
      · rw [if_neg known, getVar, Array.getElem?_eq_none (Nat.le_of_not_lt known)]
        rfl
    change (discard (source.getVar id) : Checked ε Unit).Agree Eq
      (discard (source.getVar (f id)) : Checked ε Unit)
    rw [found, found]
    exact .ite (interchanges.known_iff id).symm (.ok rfl) (Checked.alike_abort _ _)
  have agree : (source.rootsOf vars : Checked ε (List VarId)).Agree (fun _ _ => True)
      ((source.readAs f).rootsOf (vars.map f) : Checked ε (List VarId)) :=
    checks.bind fun _ _ _ => .ok trivial
  refine agree.strengthen fun roots roots' found found' _ => ?_
  have within := rootsOf_reaches source known found
  have within' := rootsOf_reaches (source.readAs f) (interchanges.operands_known known) found'
  refine ⟨within.1, within'.1, fun container => ⟨?_, ?_⟩⟩
  · rintro ⟨id, member, kind⟩
    rcases (interchanges.reaches_iff vars id).mp ((within'.2 id container kind).mp member) with
      ⟨before, reached, rfl⟩
    have kind := (interchanges.hasKind_iff before container).mp kind
    exact ⟨before, (within.2 before container kind).mpr reached, kind⟩
  · rintro ⟨id, member, kind⟩
    have reached := (within.2 id container kind).mp member
    have kind := (interchanges.hasKind_iff id container).mpr kind
    exact ⟨f id, (within'.2 (f id) container kind).mpr
      ((interchanges.reaches_iff vars (f id)).mpr ⟨id, reached, rfl⟩), kind⟩

end Interchanges

end Graph

namespace Signature

variable {signature : Signature} {memory : Memory α}

theorem find?_readAs (slots : List SharedSlot) (container : ContainerId) :
    (slots.map (SharedSlot.readAs f)).find? (·.container = container) =
      (slots.find? (·.container = container)).map (SharedSlot.readAs f) :=
  List.find?_map

theorem declare_readAs (declared : List VarId) (index : Nat) (input : InputSpec) :
    declare (source.readAs f) declared (signature.readAs f) index (input.readAs f) =
      readAs f <$> declare source declared signature index input := by
  have var : (input.readAs f).var = input.var := rfl
  have found : ((source.readAs f).getVar input.var : Checked FunctionError Variable) =
      source.getVar input.var := rfl
  have updated : (input.readAs f).update.isSome = input.update.isSome := Option.isSome_map
  have listed : ∀ container, (signature.readAs f).shared.any (·.container = container) =
      signature.shared.any (·.container = container) := fun container => List.any_map
  unfold declare
  rw [var, found]
  split
  · rfl
  · cases source.getVar input.var with
    | error failure => rfl
    | ok var =>
      simp only [Checked.ok_bind]
      cases var.kind with
      | input =>
        simp only [updated]
        split <;> rfl
      | shared container =>
        simp only [listed]
        split
        · rfl
        · exact congrArg Except.ok (by simp [readAs, SharedSlot.readAs, InputSpec.readAs])
      | constant value => rfl
      | output node position => rfl

theorem declareAll_readAs (index : Nat) (declared : List VarId) (inputs : List InputSpec) :
    declareAll (source.readAs f) index declared (inputs.map (InputSpec.readAs f))
      (signature.readAs f) = readAs f <$> declareAll source index declared inputs signature := by
  induction inputs generalizing index declared signature with
  | nil => rfl
  | cons input rest ih =>
    simp only [List.map_cons, declareAll, declare_readAs]
    cases declare source declared signature index input with
    | error failure => rfl
    | ok extended => exact ih (index + 1) (input.var :: declared)

theorem addUpdate_readAs (target expression : VarId) :
    addUpdate memory (source.readAs f) (signature.readAs f) (target, f expression) =
      readAs f <$> addUpdate memory source signature (target, expression) := by
  have found : ((source.readAs f).getVar target : Checked FunctionError Variable) =
      source.getVar target := rfl
  unfold addUpdate
  dsimp only
  rw [found]
  cases (source.getVar target : Checked FunctionError Variable) with
  | error failure => rfl
  | ok var =>
    simp only [Checked.ok_bind]
    cases var.kind with
    | shared container =>
      have slots : (signature.readAs f).shared = signature.shared.map (SharedSlot.readAs f) := rfl
      simp only [slots, find?_readAs]
      cases signature.shared.find? (·.container = container) with
      | none => exact congrArg Except.ok (by simp [readAs, SharedSlot.readAs])
      | some slot =>
        have updated : (slot.readAs f).update.isSome = slot.update.isSome := Option.isSome_map
        simp only [Option.map_some, updated]
        split
        · rfl
        · refine congrArg Except.ok ?_
          simp only [readAs, List.map_map, Signature.mk.injEq, true_and, and_true]
          refine List.map_congr_left fun other _ => ?_
          by_cases same : other.container = container <;> simp [SharedSlot.readAs, same]
    | _ => rfl

theorem addUpdates_readAs (updates : List (VarId × VarId)) :
    (updates.map fun (target, expression) => (target, f expression)).foldlM
        (addUpdate memory (source.readAs f)) (signature.readAs f) =
      readAs f <$> updates.foldlM (addUpdate memory source) signature := by
  induction updates generalizing signature with
  | nil => rfl
  | cons update rest ih =>
    simp only [List.map_cons, List.foldlM_cons, addUpdate_readAs]
    cases addUpdate memory source signature update with
    | error failure => rfl
    | ok extended => exact ih

/-- What becomes of a signature by adding roots that a function reads: containers that were not listed
before come after the others. -/
structure Extended (source : Graph α) (reads : List VarId) (before after : Signature)
    (back : List SharedSlot) : Prop where
  arguments : after.arguments = before.arguments
  outputs : after.outputs = before.outputs
  shared : after.shared = before.shared ++ back
  plain : ∀ slot ∈ back, slot.update = none ∧ slot.borrow = false
  containers : ∀ container, container ∈ after.shared.map (·.container) ↔
    container ∈ before.shared.map (·.container) ∨
      ∃ id ∈ reads, source.HasKind id (.shared container)

theorem addRead_extends (signature : Signature) {id : VarId} (known : id.index < source.vars.size) :
    ∃ after back, addRead source signature id = Except.ok after ∧
      Extended source [id] signature after back := by
  have found : source.vars[id.index]? = some source.vars[id.index] := Array.getElem?_eq_getElem known
  have located : (source.getVar id : Checked FunctionError Variable) =
      Except.ok source.vars[id.index] := Graph.getVar_eq_ok.mpr found
  have kinds : ∀ container, (∃ other ∈ [id], source.HasKind other (.shared container)) ↔
      source.vars[id.index].kind = .shared container := by
    intro container
    simp [Graph.HasKind, found]
  have unchanged : ∀ aliases, (∀ container, source.vars[id.index].kind = .shared container →
      container ∈ signature.shared.map (·.container)) →
        Extended source [id] signature { signature with aliases } [] := by
    intro aliases listed
    refine ⟨rfl, rfl, (List.append_nil _).symm, by simp, fun container => ?_⟩
    rw [kinds]
    exact ⟨Or.inl, fun either => either.elim (fun member => member) (listed container)⟩
  unfold addRead
  rw [located, Checked.ok_bind]
  cases kind : source.vars[id.index].kind with
  | shared container =>
    cases first : signature.shared.find? (·.container = container) with
    | some slot =>
      have listed : ∀ other, source.vars[id.index].kind = .shared other →
          other ∈ signature.shared.map (·.container) := by
        intro other same
        rw [kind] at same
        cases same
        have here : slot.container = container := by simpa using List.find?_some first
        exact here ▸ List.mem_map_of_mem (List.mem_of_find?_eq_some first)
      simp only [first]
      split
      · exact ⟨_, [], rfl, unchanged signature.aliases listed⟩
      · exact ⟨_, [], rfl, unchanged _ listed⟩
    | none =>
      simp only [first]
      refine ⟨_, [⟨id, container, false, none⟩], rfl, rfl, rfl, rfl, by simp, fun other => ?_⟩
      rw [kinds, kind]
      simp [eq_comm]
  | _ => exact ⟨_, [], rfl, unchanged signature.aliases (by simp [kind])⟩

theorem addReads_extend (source : Graph α) (signature : Signature) {reads : List VarId}
    (known : ∀ id ∈ reads, id.index < source.vars.size) :
    ∃ after back, reads.foldlM (addRead source) signature = Except.ok after ∧
      Extended source reads signature after back := by
  induction reads generalizing signature with
  | nil => exact ⟨signature, [], rfl, rfl, rfl, (List.append_nil _).symm, by simp, by simp⟩
  | cons id rest ih =>
    rcases addRead_extends signature (known id (by simp)) with
      ⟨middle, back, first, extended⟩
    rcases ih middle fun id member => known id (by simp [member]) with
      ⟨after, back', others, extended'⟩
    refine ⟨after, back ++ back', ?_, extended'.arguments.trans extended.arguments,
      extended'.outputs.trans extended.outputs, ?_, ?_, fun container => ?_⟩
    · rw [List.foldlM_cons, first, Checked.ok_bind, others]
    · rw [extended'.shared, extended.shared, List.append_assoc]
    · intro slot member
      exact (List.mem_append.mp member).elim (extended.plain slot) (extended'.plain slot)
    · rw [extended'.containers, extended.containers]
      simp [or_assoc]

/-- A container that is only read is refused if it has been released, and for no other reason. -/
theorem checkShared_plain (memory : Memory α) (source : Graph α) {slot : SharedSlot}
    (plain : slot.update = none) :
    checkShared memory source slot = if (memory.container slot.container).isReleased then
        Checked.raise (.container (.released (memory.container slot.container).name))
      else Except.ok () := by
  unfold checkShared
  simp only [plain]

theorem checkShared_agree (interchanges : source.Interchanges f) (slot : SharedSlot) :
    (checkShared memory source slot).Agree Eq (checkShared memory (source.readAs f) (slot.readAs f)) := by
  unfold checkShared
  simp only [SharedSlot.readAs]
  refine .ite Iff.rfl (Checked.alike_raise trivial) ?_
  cases slot.update with
  | none => exact .ok rfl
  | some expression =>
    have types : (source.getVar expression : Checked FunctionError Variable).Agree
        (fun var var' => var'.type = var.type)
        (source.getVar (f expression) : Checked FunctionError Variable) := by
      by_cases moved : f expression = expression
      · rw [moved]
        exact (Checked.agree_self _).strengthen fun _ _ _ _ same => congrArg Variable.type same.symm
      · rcases interchanges expression moved with ⟨var, var', _, found, found', _, _, type⟩
        rw [Graph.getVar_eq_ok.mpr found, Graph.getVar_eq_ok.mpr found']
        exact .ok type
    refine types.bind fun var var' type => ?_
    rw [type]
    exact .ite Iff.rfl (.ok rfl) (Checked.alike_raise trivial)

theorem checkPlain_cases (memory : Memory α) (source : Graph α) {slots : List SharedSlot}
    (plain : ∀ slot ∈ slots, slot.update = none) :
    (∀ container ∈ slots.map (·.container), ¬(memory.container container).isReleased) ∧
        slots.forM (checkShared memory source) = Except.ok () ∨
      (∃ container ∈ slots.map (·.container), (memory.container container).isReleased) ∧
        ∃ cause, slots.forM (checkShared memory source) = Checked.raise cause := by
  induction slots with
  | nil => exact Or.inl ⟨by simp, rfl⟩
  | cons slot rest ih =>
    have first := checkShared_plain memory source (plain slot (by simp))
    have loop : (slot :: rest).forM (checkShared memory source) =
        checkShared memory source slot >>= fun _ => rest.forM (checkShared memory source) := rfl
    rw [loop, first]
    by_cases released : (memory.container slot.container).isReleased
    · rw [if_pos released]
      exact Or.inr ⟨⟨slot.container, by simp, released⟩, _, rfl⟩
    · rw [if_neg released, Checked.ok_bind]
      have others := ih fun slot member => plain slot (by simp [member])
      simpa only [List.map_cons, List.forall_mem_cons, List.exists_mem_cons_iff, released, not_false_eq_true,
        true_and, false_or, Bool.false_eq_true] using others

/-- Containers that are only read are accepted in any order. -/
theorem checkPlain_agree {slots slots' : List SharedSlot} (source source' : Graph α)
    (plain : ∀ slot ∈ slots, slot.update = none) (plain' : ∀ slot ∈ slots', slot.update = none)
    (containers : ∀ container, container ∈ slots'.map (·.container) ↔
      container ∈ slots.map (·.container)) :
    (slots.forM (checkShared memory source)).Agree Eq (slots'.forM (checkShared memory source')) := by
  have first := checkPlain_cases memory source plain
  have second := checkPlain_cases memory source' plain'
  simp only [containers] at second
  rcases first with ⟨holds, passed⟩ | ⟨⟨container, member, released⟩, cause, failed⟩ <;>
    rcases second with ⟨holds', passed'⟩ | ⟨⟨container', member', released'⟩, cause', failed'⟩
  · rw [passed, passed']
    exact .ok rfl
  · exact absurd released' (holds container' member')
  · exact absurd released (holds' container member)
  · rw [failed, failed']
    exact Checked.alike_raise trivial

/-- Signatures of functions of which one reads other variables. Arguments and the containers that are
declared or updated stand in the same places; what is only read may be represented by other variables
and stand in another order. -/
structure Alike (f : VarId → VarId) (front back back' : List SharedSlot)
    (signature signature' : Signature) : Prop where
  arguments : signature'.arguments = signature.arguments
  outputs : signature'.outputs = signature.outputs.map (OutputSpec.readAs f)
  shared : signature.shared = front ++ back
  shared' : signature'.shared = front.map (SharedSlot.readAs f) ++ back'
  plain : ∀ slot ∈ back, slot.update = none ∧ slot.borrow = false
  plain' : ∀ slot ∈ back', slot.update = none ∧ slot.borrow = false
  containers : (back.map (·.container)).Perm (back'.map (·.container))

theorem Lists.readAs (lists : signature.Lists source) :
    (signature.readAs f).Lists (source.readAs f) := by
  have mapped : Lists { signature with shared := signature.shared.map (SharedSlot.readAs f) } source :=
    lists.mapSlots (fun _ => rfl) fun _ => rfl
  exact ⟨mapped.arguments, mapped.arguments_distinct, mapped.shared, mapped.containers_distinct,
    mapped.aliases⟩

theorem Extended.mem_back {reads : List VarId} {after : Signature} {back : List SharedSlot}
    (extended : Extended source reads signature after back) (lists : after.Lists source)
    (container : ContainerId) : container ∈ back.map (·.container) ↔
      container ∉ signature.shared.map (·.container) ∧
        ∃ id ∈ reads, source.HasKind id (.shared container) := by
  have listed := extended.containers container
  have distinct := lists.containers_distinct
  rw [extended.shared, List.map_append] at listed distinct
  rw [List.mem_append] at listed
  have apart : container ∈ signature.shared.map (·.container) →
      container ∉ back.map (·.container) := fun first second =>
    (List.nodup_append.mp distinct).2.2 container first container second rfl
  by_cases first : container ∈ signature.shared.map (·.container)
  · exact iff_of_false (apart first) fun both => both.1 first
  · rw [or_iff_right first, or_iff_right first] at listed
    rw [listed]
    exact (and_iff_right first).symm

/-- The same containers are added if the roots stand for the same ones. -/
theorem Extended.perm {reads reads' : List VarId} {after after' : Signature}
    {back back' : List SharedSlot} (extended : Extended source reads signature after back)
    (extended' : Extended (source.readAs f) reads' (signature.readAs f) after' back')
    (lists : after.Lists source) (lists' : after'.Lists (source.readAs f))
    (same : ∀ container, (∃ id ∈ reads', source.HasKind id (.shared container)) ↔
      ∃ id ∈ reads, source.HasKind id (.shared container)) :
    (back.map (·.container)).Perm (back'.map (·.container)) := by
  have distinct := lists.containers_distinct
  have distinct' := lists'.containers_distinct
  rw [extended.shared, List.map_append] at distinct
  rw [extended'.shared, List.map_append] at distinct'
  rw [List.perm_ext_iff_of_nodup (List.nodup_append.mp distinct).2.1
    (List.nodup_append.mp distinct').2.1]
  intro container
  have containers : (signature.readAs f).shared.map (·.container) =
      signature.shared.map (·.container) := by
    rw [readAs, List.map_map]
    rfl
  rw [extended.mem_back lists, extended'.mem_back lists', containers]
  exact and_congr_right' (same container).symm

/-- The containers of both signatures are accepted. Those that are declared or updated are checked one
by one, those that are only read in whichever order they stand. -/
theorem Extended.checkShared_agree (interchanges : source.Interchanges f) {reads reads' : List VarId}
    {after after' : Signature} {back back' : List SharedSlot}
    (extended : Extended source reads signature after back)
    (extended' : Extended (source.readAs f) reads' (signature.readAs f) after' back')
    (perm : (back.map (·.container)).Perm (back'.map (·.container))) :
    (after.shared.forM (checkShared memory source)).Agree Eq
      (after'.shared.forM (checkShared memory (source.readAs f))) := by
  have split : ∀ (front back : List SharedSlot) (check : SharedSlot → Checked FunctionError Unit),
      (front ++ back).forM check = front.forM check >>= fun _ => back.forM check :=
    fun _ _ _ => List.forM_append
  have front : (signature.shared.forM (checkShared memory source)).Agree Eq
      ((signature.shared.map (SharedSlot.readAs f)).forM (checkShared memory (source.readAs f))) := by
    refine .forM (paired_map _ signature.shared) ?_
    rintro slot _ ⟨rfl, -⟩
    exact Signature.checkShared_agree interchanges slot
  rw [extended.shared, extended'.shared, split, split]
  exact front.bind fun _ _ _ => checkPlain_agree source (source.readAs f)
    (fun slot member => (extended.plain slot member).1)
    (fun slot member => (extended'.plain slot member).1) fun container => perm.mem_iff.symm

/-- The signature of a function is found in the same way if other variables are read. -/
theorem collect_readAs (memory : Memory α) (interchanges : source.Interchanges f)
    (known : ∀ var, ∀ operand ∈ source.operands var, operand.index < source.vars.size)
    (inputs : List InputSpec) (outputs : List OutputSpec) (updates : List (VarId × VarId)) :
    (collect memory source inputs outputs updates).Agree
      (fun signature signature' => ∃ front back back', signature.Alike f front back back' signature')
      (collect memory (source.readAs f) (inputs.map (InputSpec.readAs f))
        (outputs.map (OutputSpec.readAs f))
        (updates.map fun (target, expression) => (target, f expression))) := by
  have start : (⟨[], [], [], outputs.map (OutputSpec.readAs f)⟩ : Signature) =
      readAs f ⟨[], [], [], outputs⟩ := rfl
  unfold collect
  rw [start, declareAll_readAs]
  cases declaring : declareAll source 0 [] inputs ⟨[], [], [], outputs⟩ with
  | error failure => exact .error (.refl (fun _ => trivial) failure)
  | ok declared =>
  change Checked.Agree _ (updates.foldlM (addUpdate memory source) declared >>= _)
    ((updates.map fun (target, expression) => (target, f expression)).foldlM
      (addUpdate memory (source.readAs f)) (declared.readAs f) >>= _)
  rw [addUpdates_readAs]
  cases updating : updates.foldlM (addUpdate memory source) declared with
  | error failure => exact .error (.refl (fun _ => trivial) failure)
  | ok updated =>
  have lists : updated.Lists source := Checked.foldlM_invariant (·.Lists source)
    (fun _ _ _ _ lists answer => addUpdate_lists lists answer)
    (declareAll_lists (Lists.none outputs) (by simp) declaring) updating
  have expressions : (outputs.map (OutputSpec.readAs f)).map (·.var) ++
      (updated.readAs f).shared.filterMap (·.update) =
        (outputs.map (·.var) ++ updated.shared.filterMap (·.update)).map f := by
    rw [List.map_append, List.map_map, List.map_map, readAs, List.filterMap_map, List.map_filterMap]
    rfl
  change Checked.Agree _ (source.rootsOf _ >>= _) ((source.readAs f).rootsOf
    ((outputs.map (OutputSpec.readAs f)).map (·.var) ++
      (updated.readAs f).shared.filterMap (·.update)) >>= _)
  rw [expressions]
  refine (interchanges.rootsOf_agree known _).bind ?_
  rintro reads reads' ⟨inside, inside', same⟩
  rcases addReads_extend source updated inside with ⟨after, back, reading, extended⟩
  rcases addReads_extend (source.readAs f) (updated.readAs f) inside' with
    ⟨after', back', reading', extended'⟩
  have listsAfter : after.Lists source := Checked.foldlM_invariant (·.Lists source)
    (fun _ _ _ _ lists answer => addRead_lists lists answer) lists reading
  have listsAfter' : after'.Lists (source.readAs f) :=
    Checked.foldlM_invariant (·.Lists (source.readAs f))
      (fun _ _ _ _ lists answer => addRead_lists lists answer) lists.readAs reading'
  have perm := extended.perm extended' listsAfter listsAfter' same
  rw [reading, reading', Checked.ok_bind, Checked.ok_bind]
  refine (extended.checkShared_agree interchanges extended' perm).bind fun _ _ _ => .ok ?_
  exact ⟨updated.shared, back, back', extended'.arguments.trans extended.arguments.symm,
    extended'.outputs.trans (congrArg _ extended.outputs.symm), extended.shared, extended'.shared,
    extended.plain, extended'.plain, perm⟩

end Signature

end ArrayGraph
