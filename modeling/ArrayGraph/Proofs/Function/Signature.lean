import ArrayGraph.Function.Signature
import ArrayGraph.Proofs.Dataflow.Capture

/-!
# What a signature lists

Whatever inputs, outputs and updates are declared, the signature that is collected from them lists
inputs of the graph as arguments, each of them once, and has one entry for each container, under a
variable that stands for it. An alias is another variable of a container that is listed. So the inputs
of the function are distinct variables.
-/

namespace ArrayGraph

variable {α : Type} {graph : Graph α} {memory : Memory α}

/-- A variable of a graph has a kind. -/
def Graph.HasKind (graph : Graph α) (id : VarId) (kind : VarKind) : Prop :=
  ∃ var, graph.vars[id.index]? = some var ∧ var.kind = kind

theorem Graph.HasKind.unique {id : VarId} {kind other : VarKind} (first : graph.HasKind id kind)
    (second : graph.HasKind id other) : kind = other := by
  rcases first with ⟨var, found, rfl⟩
  rcases second with ⟨var', found', rfl⟩
  rw [found] at found'
  cases found'
  rfl

namespace Signature

variable {signature extended : Signature}

/-- What the declaration of an input adds to a signature. -/
inductive AddsInput (graph : Graph α) (signature : Signature) (input : InputSpec) : Signature → Prop
  | argument {argument : Argument} {var : Variable} (same : argument.var = input.var)
      (found : graph.vars[argument.var.index]? = some var) (kind : var.kind = .input)
      (type : var.type = argument.type) (unset : input.update = none) :
      AddsInput graph signature input
        { signature with arguments := signature.arguments ++ [argument] }
  | slot {container : ContainerId} (kind : graph.HasKind input.var (.shared container))
      (absent : ∀ other ∈ signature.shared, other.container ≠ container) :
      AddsInput graph signature input
        { signature with
          shared := signature.shared ++ [⟨input.var, container, input.borrow, input.update⟩] }

theorem addsInput_of_declare {declared : List VarId} {index : Nat} {input : InputSpec}
    (answer : declare graph declared signature index input = Except.ok extended) :
    input.var ∉ declared ∧ AddsInput graph signature input extended := by
  unfold declare at answer
  split at answer
  · cases answer
  · rename_i fresh
    simp only [Checked.bind_eq_ok_iff, Graph.getVar_eq_ok] at answer
    rcases answer with ⟨var, found, answer⟩
    refine ⟨fresh, ?_⟩
    split at answer
    · rename_i kind
      split at answer
      · cases answer
      · rename_i unset
        cases answer
        exact .argument rfl found kind rfl (Option.not_isSome_iff_eq_none.mp unset)
    · rename_i container kind
      split at answer
      · cases answer
      · rename_i absent
        cases answer
        exact .slot ⟨var, found, kind⟩ (by simpa using absent)
    · cases answer
    · cases answer

/-- What an update adds to a signature. -/
inductive AddsUpdate (graph : Graph α) (signature : Signature) (update : VarId × VarId) :
    Signature → Prop
  | known {slot : SharedSlot} (listed : slot ∈ signature.shared) (free : slot.update = none)
      (kind : graph.HasKind update.1 (.shared slot.container)) :
      AddsUpdate graph signature update
        { signature with
          shared := signature.shared.map fun other =>
            if other.container = slot.container then { other with update := some update.2 }
            else other }
  | slot {container : ContainerId} (kind : graph.HasKind update.1 (.shared container))
      (absent : ∀ other ∈ signature.shared, other.container ≠ container) :
      AddsUpdate graph signature update
        { signature with
          shared := signature.shared ++ [⟨update.1, container, false, some update.2⟩] }

theorem addsUpdate_of_addUpdate {update : VarId × VarId}
    (answer : addUpdate memory graph signature update = Except.ok extended) :
    AddsUpdate graph signature update extended := by
  rcases update with ⟨target, expression⟩
  simp only [addUpdate, Checked.bind_eq_ok_iff, Graph.getVar_eq_ok] at answer
  rcases answer with ⟨var, found, answer⟩
  split at answer
  · rename_i container kind
    split at answer
    · rename_i slot located
      have same : slot.container = container := by simpa using List.find?_some located
      split at answer
      · cases answer
      · rename_i free
        cases answer
        subst same
        exact .known (List.mem_of_find?_eq_some located) (by simpa using free) ⟨var, found, kind⟩
    · rename_i absent
      cases answer
      exact .slot ⟨var, found, kind⟩ (by simpa using absent)
  · cases answer

/-- What a root that is read adds to a signature. -/
inductive AddsRead (graph : Graph α) (signature : Signature) (id : VarId) : Signature → Prop
  | other (kind : ∀ container, ¬ graph.HasKind id (.shared container)) :
      AddsRead graph signature id signature
  | known {slot : SharedSlot} (listed : slot ∈ signature.shared) (same : slot.var = id) :
      AddsRead graph signature id signature
  | aliased {slot : SharedSlot} (listed : slot ∈ signature.shared)
      (kind : graph.HasKind id (.shared slot.container)) :
      AddsRead graph signature id
        { signature with aliases := signature.aliases ++ [(id, slot.var)] }
  | slot {container : ContainerId} (kind : graph.HasKind id (.shared container))
      (absent : ∀ other ∈ signature.shared, other.container ≠ container) :
      AddsRead graph signature id
        { signature with shared := signature.shared ++ [⟨id, container, false, none⟩] }

theorem addsRead_of_addRead {id : VarId}
    (answer : addRead graph signature id = Except.ok extended) :
    AddsRead graph signature id extended := by
  simp only [addRead, Checked.bind_eq_ok_iff, Graph.getVar_eq_ok] at answer
  rcases answer with ⟨var, found, answer⟩
  split at answer
  · rename_i container kind
    split at answer
    · rename_i slot located
      have listed := List.mem_of_find?_eq_some located
      have same : slot.container = container := by simpa using List.find?_some located
      split at answer
      · rename_i var
        cases answer
        exact .known listed var
      · cases answer
        exact .aliased listed ⟨var, found, same ▸ kind⟩
    · rename_i absent
      cases answer
      exact .slot ⟨var, found, kind⟩ (by simpa using absent)
  · rename_i other
    cases answer
    refine .other ?_
    rintro container ⟨content, found', kind⟩
    cases found.symm.trans found'
    exact other container kind

/-- What is listed is there: arguments are inputs and slots are variables of their containers. -/
structure Lists (signature : Signature) (graph : Graph α) : Prop where
  arguments : ∀ argument ∈ signature.arguments, ∃ var, graph.vars[argument.var.index]? = some var ∧
    var.kind = .input ∧ var.type = argument.type
  arguments_distinct : (signature.arguments.map (·.var)).Nodup
  shared : ∀ slot ∈ signature.shared, graph.HasKind slot.var (.shared slot.container)
  containers_distinct : (signature.shared.map (·.container)).Nodup
  aliases : ∀ pair ∈ signature.aliases, ∃ slot ∈ signature.shared, slot.var = pair.2 ∧
    graph.HasKind pair.1 (.shared slot.container)

namespace Lists

theorem none (outputs : List OutputSpec) : Lists ⟨[], [], [], outputs⟩ graph := by
  constructor <;> simp

theorem addArgument (lists : signature.Lists graph) {argument : Argument} {var : Variable}
    (found : graph.vars[argument.var.index]? = some var) (kind : var.kind = .input)
    (type : var.type = argument.type) (new : ∀ other ∈ signature.arguments, other.var ≠ argument.var) :
    Lists { signature with arguments := signature.arguments ++ [argument] } graph where
  arguments other member := by
    rcases List.mem_append.mp member with member | member
    · exact lists.arguments other member
    · rw [List.mem_singleton] at member
      subst member
      exact ⟨var, found, kind, type⟩
  arguments_distinct := by
    rw [List.map_append, List.nodup_append]
    refine ⟨lists.arguments_distinct, by simp, ?_⟩
    simpa using new
  shared := lists.shared
  containers_distinct := lists.containers_distinct
  aliases := lists.aliases

theorem addSlot (lists : signature.Lists graph) {slot : SharedSlot}
    (kind : graph.HasKind slot.var (.shared slot.container))
    (new : ∀ other ∈ signature.shared, other.container ≠ slot.container) :
    Lists { signature with shared := signature.shared ++ [slot] } graph where
  arguments := lists.arguments
  arguments_distinct := lists.arguments_distinct
  shared other member := by
    rcases List.mem_append.mp member with member | member
    · exact lists.shared other member
    · rw [List.mem_singleton] at member
      subst member
      exact kind
  containers_distinct := by
    rw [List.map_append, List.nodup_append]
    refine ⟨lists.containers_distinct, by simp, ?_⟩
    simpa using new
  aliases pair member := by
    rcases lists.aliases pair member with ⟨other, otherMem, facts⟩
    exact ⟨other, List.mem_append_left _ otherMem, facts⟩

theorem addAlias (lists : signature.Lists graph) {slot : SharedSlot} {id : VarId}
    (member : slot ∈ signature.shared) (kind : graph.HasKind id (.shared slot.container)) :
    Lists { signature with aliases := signature.aliases ++ [(id, slot.var)] } graph where
  arguments := lists.arguments
  arguments_distinct := lists.arguments_distinct
  shared := lists.shared
  containers_distinct := lists.containers_distinct
  aliases pair pairMem := by
    rcases List.mem_append.mp pairMem with pairMem | pairMem
    · exact lists.aliases pair pairMem
    · rw [List.mem_singleton] at pairMem
      subst pairMem
      exact ⟨slot, member, rfl, kind⟩

/-- Slots may be given other updates. -/
theorem mapSlots (lists : signature.Lists graph) {f : SharedSlot → SharedSlot}
    (var : ∀ slot, (f slot).var = slot.var)
    (container : ∀ slot, (f slot).container = slot.container) :
    Lists { signature with shared := signature.shared.map f } graph where
  arguments := lists.arguments
  arguments_distinct := lists.arguments_distinct
  shared other member := by
    rcases List.mem_map.mp member with ⟨slot, slotMem, rfl⟩
    rw [var, container]
    exact lists.shared slot slotMem
  containers_distinct := by
    rw [List.map_map]
    simpa [Function.comp_def, container] using lists.containers_distinct
  aliases pair member := by
    rcases lists.aliases pair member with ⟨slot, slotMem, same, kind⟩
    exact ⟨f slot, List.mem_map_of_mem slotMem, (var slot).trans same, (container slot).symm ▸ kind⟩

/-- Slots of different containers are different variables. -/
theorem slots_distinct (lists : signature.Lists graph) : (signature.shared.map (·.var)).Nodup := by
  refine (List.Nodup.of_map _ lists.containers_distinct).map_on ?_
  intro slot slotMem other otherMem same
  have kind := (lists.shared slot slotMem).unique (same ▸ lists.shared other otherMem)
  exact List.inj_on_of_nodup_map lists.containers_distinct slotMem otherMem (VarKind.shared.inj kind)

/-- The inputs of a function are distinct variables. -/
theorem nodup_inputVars (lists : signature.Lists graph) : signature.inputVars.Nodup := by
  rw [inputVars, List.nodup_append]
  refine ⟨lists.arguments_distinct, lists.slots_distinct, ?_⟩
  intro var argumentVar other slotVar same
  rcases List.mem_map.mp argumentVar with ⟨argument, argumentMem, rfl⟩
  rcases List.mem_map.mp slotVar with ⟨slot, slotMem, rfl⟩
  rcases lists.arguments argument argumentMem with ⟨content, found, kind, _⟩
  cases (same ▸ lists.shared slot slotMem).unique ⟨content, found, kind⟩

end Lists

theorem declare_lists {declared : List VarId} {index : Nat} {input : InputSpec}
    (lists : signature.Lists graph) (known : ∀ argument ∈ signature.arguments, argument.var ∈ declared)
    (answer : declare graph declared signature index input = Except.ok extended) :
    extended.Lists graph ∧ ∀ argument ∈ extended.arguments, argument.var ∈ input.var :: declared := by
  rcases addsInput_of_declare answer with ⟨fresh, adds⟩
  cases adds with
  | @argument argument _ same found kind type =>
    refine ⟨lists.addArgument found kind type ?_, ?_⟩
    · intro other member clash
      exact fresh (same ▸ clash ▸ known other member)
    · intro other member
      rcases List.mem_append.mp member with member | member
      · exact List.mem_cons_of_mem _ (known other member)
      · rw [List.mem_singleton.mp member, same]
        exact List.mem_cons_self
  | slot kind absent =>
    exact ⟨lists.addSlot kind absent,
      fun argument member => List.mem_cons_of_mem _ (known argument member)⟩

theorem declareAll_lists {index : Nat} {declared : List VarId} {inputs : List InputSpec}
    (lists : signature.Lists graph) (known : ∀ argument ∈ signature.arguments, argument.var ∈ declared)
    (answer : declareAll graph index declared inputs signature = Except.ok extended) :
    extended.Lists graph := by
  induction inputs generalizing index declared signature with
  | nil =>
    cases answer
    exact lists
  | cons input rest ih =>
    simp only [declareAll, Checked.bind_eq_ok_iff] at answer
    rcases answer with ⟨middle, first, others⟩
    rcases declare_lists lists known first with ⟨lists, known⟩
    exact ih lists known others

theorem addUpdate_lists {update : VarId × VarId} (lists : signature.Lists graph)
    (answer : addUpdate memory graph signature update = Except.ok extended) :
    extended.Lists graph := by
  cases addsUpdate_of_addUpdate answer with
  | known => apply lists.mapSlots <;> intro slot <;> split <;> rfl
  | slot kind absent => exact lists.addSlot kind absent

theorem addRead_lists {id : VarId} (lists : signature.Lists graph)
    (answer : addRead graph signature id = Except.ok extended) : extended.Lists graph := by
  cases addsRead_of_addRead answer with
  | other | known => exact lists
  | aliased listed kind => exact lists.addAlias listed kind
  | slot kind absent => exact lists.addSlot kind absent

/-- A signature that has been collected lists what is there. -/
theorem lists_of_collect {inputs : List InputSpec} {outputs : List OutputSpec}
    {updates : List (VarId × VarId)}
    (collected : collect memory graph inputs outputs updates = Except.ok signature) :
    signature.Lists graph := by
  simp only [collect, Checked.bind_eq_ok_iff] at collected
  rcases collected with ⟨declared, declaring, updated, updating, reads, _, result, reading, _, _, same⟩
  cases same
  have first : declared.Lists graph := declareAll_lists (Lists.none outputs) (by simp) declaring
  have second : updated.Lists graph := Checked.foldlM_invariant (·.Lists graph)
    (fun _ _ _ _ lists answer => addUpdate_lists lists answer) first updating
  exact Checked.foldlM_invariant (·.Lists graph)
    (fun _ _ _ _ lists answer => addRead_lists lists answer) second reading

/-- A signature has outputs as they were declared, and its updates are the pairs of a variable of a
container and an expression that were declared. -/
structure Declares (signature : Signature) (graph : Graph α) (outputs : List OutputSpec)
    (pairs : List (VarId × VarId)) : Prop where
  outputs : signature.outputs = outputs
  listed : ∀ pair ∈ pairs, ∃ slot ∈ signature.shared,
    graph.HasKind pair.1 (.shared slot.container) ∧ slot.update = some pair.2
  origin : ∀ slot ∈ signature.shared, ∀ expression, slot.update = some expression →
    ∃ target, (target, expression) ∈ pairs ∧ graph.HasKind target (.shared slot.container)

namespace Declares

variable {outputs : List OutputSpec} {pairs : List (VarId × VarId)}

theorem empty (outputs : List OutputSpec) : Declares ⟨[], [], [], outputs⟩ graph outputs [] :=
  ⟨rfl, by simp, by simp⟩

theorem addSlot (declares : signature.Declares graph outputs pairs) {slot : SharedSlot}
    (kind : graph.HasKind slot.var (.shared slot.container)) :
    Declares { signature with shared := signature.shared ++ [slot] } graph outputs
      (pairs ++ slot.update.toList.map (slot.var, ·)) where
  outputs := declares.outputs
  listed pair member := by
    rcases List.mem_append.mp member with member | member
    · rcases declares.listed pair member with ⟨other, otherMem, facts⟩
      exact ⟨other, List.mem_append_left _ otherMem, facts⟩
    · rcases List.mem_map.mp member with ⟨expression, given, rfl⟩
      exact ⟨slot, List.mem_append_right _ (List.mem_singleton_self _), kind,
        Option.mem_toList.mp given⟩
  origin other member expression updated := by
    rcases List.mem_append.mp member with member | member
    · rcases declares.origin other member expression updated with ⟨target, pairMem, facts⟩
      exact ⟨target, List.mem_append_left _ pairMem, facts⟩
    · rw [List.mem_singleton] at member
      subst member
      exact ⟨other.var, List.mem_append_right _ (List.mem_map.mpr
        ⟨expression, Option.mem_toList.mpr updated, rfl⟩), kind⟩

/-- A container that has no update is given one. -/
theorem setUpdate (declares : signature.Declares graph outputs pairs)
    (distinct : (signature.shared.map (·.container)).Nodup) {slot : SharedSlot}
    (slotMem : slot ∈ signature.shared) (free : slot.update = none) {target expression : VarId}
    (kind : graph.HasKind target (.shared slot.container)) :
    Declares { signature with shared := signature.shared.map fun other =>
      if other.container = slot.container then { other with update := some expression } else other }
        graph outputs (pairs ++ [(target, expression)]) where
  outputs := declares.outputs
  listed pair member := by
    rcases List.mem_append.mp member with member | member
    · rcases declares.listed pair member with ⟨other, otherMem, otherKind, updated⟩
      refine ⟨other, List.mem_map.mpr ⟨other, otherMem, if_neg ?_⟩, otherKind, updated⟩
      intro same
      cases List.inj_on_of_nodup_map distinct otherMem slotMem same
      simp [free] at updated
    · rw [List.mem_singleton] at member
      subst member
      exact ⟨{ slot with update := some expression },
        List.mem_map.mpr ⟨slot, slotMem, if_pos rfl⟩, kind, rfl⟩
  origin other member found updated := by
    rcases List.mem_map.mp member with ⟨before, beforeMem, rfl⟩
    split at updated
    · rename_i same
      cases updated
      rw [if_pos same]
      exact ⟨target, by simp, same ▸ kind⟩
    · rename_i different
      rw [if_neg different]
      rcases declares.origin before beforeMem found updated with ⟨source, pairMem, facts⟩
      exact ⟨source, List.mem_append_left _ pairMem, facts⟩

end Declares

/-- What is declared to be updated, with the inputs or apart from them. -/
def updatePairs (inputs : List InputSpec) (updates : List (VarId × VarId)) : List (VarId × VarId) :=
  inputs.flatMap (fun input => input.update.toList.map (input.var, ·)) ++ updates

theorem declareAll_declares {index : Nat} {declared : List VarId} {inputs : List InputSpec}
    {outputs : List OutputSpec} {pairs : List (VarId × VarId)}
    (declares : signature.Declares graph outputs pairs)
    (answer : declareAll graph index declared inputs signature = Except.ok extended) :
    extended.Declares graph outputs
      (pairs ++ inputs.flatMap fun input => input.update.toList.map (input.var, ·)) := by
  induction inputs generalizing index declared signature pairs with
  | nil =>
    cases answer
    simpa using declares
  | cons input rest ih =>
    simp only [declareAll, Checked.bind_eq_ok_iff] at answer
    rcases answer with ⟨middle, first, others⟩
    rw [List.flatMap_cons, ← List.append_assoc]
    refine ih ?_ others
    cases (addsInput_of_declare first).2 with
    | argument _ _ _ _ unset =>
      rw [unset]
      simpa using ⟨declares.outputs, declares.listed, declares.origin⟩
    | slot kind => exact declares.addSlot kind

theorem addUpdate_declares {outputs : List OutputSpec} {pairs : List (VarId × VarId)}
    {update : VarId × VarId} (lists : signature.Lists graph)
    (declares : signature.Declares graph outputs pairs)
    (answer : addUpdate memory graph signature update = Except.ok extended) :
    extended.Declares graph outputs (pairs ++ [update]) := by
  cases addsUpdate_of_addUpdate answer with
  | known listed free kind => exact declares.setUpdate lists.containers_distinct listed free kind
  | slot kind => exact declares.addSlot kind

theorem addUpdates_declare {outputs : List OutputSpec} {pairs updates : List (VarId × VarId)}
    (lists : signature.Lists graph) (declares : signature.Declares graph outputs pairs)
    (answer : updates.foldlM (addUpdate memory graph) signature = Except.ok extended) :
    extended.Declares graph outputs (pairs ++ updates) := by
  induction updates generalizing signature pairs with
  | nil =>
    cases answer
    simpa using declares
  | cons update rest ih =>
    rw [List.foldlM_cons, Checked.bind_eq_ok_iff] at answer
    rcases answer with ⟨middle, first, others⟩
    have next := ih (addUpdate_lists lists first) (addUpdate_declares lists declares first) others
    simpa using next

theorem addRead_declares {outputs : List OutputSpec} {pairs : List (VarId × VarId)} {id : VarId}
    (declares : signature.Declares graph outputs pairs)
    (answer : addRead graph signature id = Except.ok extended) :
    extended.Declares graph outputs pairs := by
  cases addsRead_of_addRead answer with
  | other | known => exact declares
  | aliased => exact ⟨declares.outputs, declares.listed, declares.origin⟩
  | @slot container kind =>
    have added : Declares
        { signature with shared := signature.shared ++ [⟨id, container, false, none⟩] } graph
        outputs (pairs ++ []) := declares.addSlot kind
    simpa using added

/-- A signature that has been collected has the outputs and the updates that were declared. -/
theorem declares_of_collect {inputs : List InputSpec} {outputs : List OutputSpec}
    {updates : List (VarId × VarId)}
    (collected : collect memory graph inputs outputs updates = Except.ok signature) :
    signature.Declares graph outputs (updatePairs inputs updates) := by
  simp only [collect, Checked.bind_eq_ok_iff] at collected
  rcases collected with ⟨declared, declaring, updated, updating, reads, _, result, reading, _, _, same⟩
  cases same
  have lists : declared.Lists graph := declareAll_lists (Lists.none outputs) (by simp) declaring
  have first := declareAll_declares (Declares.empty outputs) declaring
  have second := addUpdates_declare lists first updating
  exact Checked.foldlM_invariant (·.Declares graph outputs (updatePairs inputs updates))
    (fun _ _ _ _ declares answer => addRead_declares declares answer) second reading

theorem outputVars_eq (signature : Signature) : signature.outputVars =
    signature.outputs.map (·.var) ++ signature.shared.filterMap (·.update) := by
  simp only [outputVars, updated, List.map_filterMap, Option.map_map, Function.comp_def,
    Option.map_id']

/-- What a function computes are the outputs and the updates that were declared. -/
theorem Declares.of_mem_outputVars {outputs : List OutputSpec} {pairs : List (VarId × VarId)}
    (declares : signature.Declares graph outputs pairs) {var : VarId}
    (member : var ∈ signature.outputVars) : var ∈ outputs.map (·.var) ++ pairs.map (·.2) := by
  rw [outputVars_eq, declares.outputs] at member
  refine List.mem_append.mpr ((List.mem_append.mp member).imp_right fun member => ?_)
  rcases List.mem_filterMap.mp member with ⟨slot, slotMem, updated⟩
  rcases declares.origin slot slotMem var updated with ⟨target, pairMem, _⟩
  exact List.mem_map.mpr ⟨(target, var), pairMem, rfl⟩

/-- A variable of a container has been taken into account: it is the input for its container, or an
alias of the input. -/
def Covers (signature : Signature) (id : VarId) : Prop :=
  (∃ slot ∈ signature.shared, slot.var = id) ∨ ∃ input, (id, input) ∈ signature.aliases

theorem addRead_covers {id : VarId} (answer : addRead graph signature id = Except.ok extended) :
    extended.outputVars = signature.outputVars ∧
      (∀ other, signature.Covers other → extended.Covers other) ∧
      ∀ container, graph.HasKind id (.shared container) → extended.Covers id := by
  cases addsRead_of_addRead answer with
  | other kind =>
    exact ⟨rfl, fun _ covers => covers, fun container shared => absurd shared (kind container)⟩
  | @known slot listed same =>
    exact ⟨rfl, fun _ covers => covers, fun _ _ => Or.inl ⟨slot, listed, same⟩⟩
  | @aliased slot =>
    refine ⟨rfl, ?_, fun _ _ => Or.inr ⟨slot.var, by simp⟩⟩
    exact fun other covers => covers.imp_right fun ⟨input, listed⟩ => ⟨input, by simp [listed]⟩
  | slot =>
    refine ⟨by simp [outputVars_eq], ?_,
      fun _ _ => Or.inl ⟨_, List.mem_append_right _ (List.mem_singleton_self _), rfl⟩⟩
    exact fun other covers => covers.imp_left fun ⟨slot, listed, same⟩ =>
      ⟨slot, List.mem_append_left _ listed, same⟩

theorem addReads_cover {reads : List VarId}
    (answer : reads.foldlM (addRead graph) signature = Except.ok extended) :
    extended.outputVars = signature.outputVars ∧
      (∀ other, signature.Covers other → extended.Covers other) ∧
      ∀ id ∈ reads, ∀ container, graph.HasKind id (.shared container) → extended.Covers id := by
  induction reads generalizing signature with
  | nil =>
    cases answer
    exact ⟨rfl, fun _ covers => covers, by simp⟩
  | cons id rest ih =>
    rw [List.foldlM_cons, Checked.bind_eq_ok_iff] at answer
    rcases answer with ⟨middle, first, others⟩
    rcases addRead_covers first with ⟨outputs, kept, covers⟩
    rcases ih others with ⟨outputs', kept', covers'⟩
    refine ⟨outputs'.trans outputs, fun other before => kept' other (kept other before), ?_⟩
    intro other member container kind
    rcases List.mem_cons.mp member with rfl | member
    · exact kept' other (covers container kind)
    · exact covers' other member container kind

/-- The search for roots goes through all that the variables depend on. -/
theorem mem_rootsOf (known : ∀ var, ∀ operand ∈ graph.operands var, operand.index < graph.vars.size)
    {ε : Type} {vars roots : List VarId}
    (answer : (graph.rootsOf vars : Checked ε (List VarId)) = Except.ok roots) :
    ∃ reached : List VarId, (∀ var ∈ vars, var ∈ reached) ∧
      (∀ var ∈ reached, ∀ operand ∈ graph.operands var, operand ∈ reached) ∧
      ∀ var ∈ reached, ∀ container, graph.HasKind var (.shared container) → var ∈ roots := by
  simp only [Graph.rootsOf, Checked.bind_eq_ok_iff] at answer
  rcases answer with ⟨_, checked, same⟩
  cases same
  have points : ∀ id : VarId, id.index < graph.vars.size →
      id ∈ (List.range graph.vars.size).map VarId.mk := by
    intro id inside
    exact List.mem_map.mpr ⟨id.index, List.mem_range.mpr inside, rfl⟩
  have start : ∀ var ∈ vars, var ∈ (List.range graph.vars.size).map VarId.mk := by
    intro var member
    have found := Checked.forM_eq_ok_iff.mp checked var member
    cases looked : (graph.getVar var : Checked ε Variable) with
    | error failure =>
      rw [looked] at found
      cases found
    | ok content =>
      exact points var (Array.getElem?_eq_some_iff.mp (Graph.getVar_eq_ok.mp looked)).1
  refine ⟨closure graph.operands graph.vars.size vars, fun var => mem_closure_of_mem_start,
    closure_closed (fun origin target member => points target (known origin target member)) start
      (by simp), ?_⟩
  rintro var reached container ⟨content, found, kind⟩
  have inside := (Array.getElem?_eq_some_iff.mp found).1
  refine List.mem_filter.mpr ⟨points var inside, ?_⟩
  simp [reached, found, Variable.producer?, kind]

/-- Every variable of a container that an output or an update depends on has been taken into
account. -/
theorem covers_of_collect
    (known : ∀ var, ∀ operand ∈ graph.operands var, operand.index < graph.vars.size)
    {inputs : List InputSpec} {outputs : List OutputSpec} {updates : List (VarId × VarId)}
    (collected : collect memory graph inputs outputs updates = Except.ok signature) :
    ∃ reached : List VarId, (∀ var ∈ signature.outputVars, var ∈ reached) ∧
      (∀ var ∈ reached, ∀ operand ∈ graph.operands var, operand ∈ reached) ∧
      ∀ var ∈ reached, ∀ container, graph.HasKind var (.shared container) →
        signature.Covers var := by
  simp only [collect, Checked.bind_eq_ok_iff] at collected
  rcases collected with ⟨declared, declaring, updated, updating, reads, rooting, result, reading, _, _,
    same⟩
  cases same
  have lists : declared.Lists graph := declareAll_lists (Lists.none outputs) (by simp) declaring
  have first := declareAll_declares (Declares.empty outputs) declaring
  have sameOutputs := (addUpdates_declare lists first updating).outputs
  rcases addReads_cover reading with ⟨outputVars, _, covers⟩
  rcases mem_rootsOf known rooting with ⟨reached, start, closed, roots⟩
  refine ⟨reached, ?_, closed, ?_⟩
  · intro var member
    rw [outputVars, outputVars_eq, sameOutputs] at member
    exact start var member
  · exact fun var member container kind => covers var (roots var member container kind) container kind

/-- An update is of the element type and the rank of its container. -/
theorem update_typed_of_collect {inputs : List InputSpec} {outputs : List OutputSpec}
    {updates : List (VarId × VarId)}
    (collected : collect memory graph inputs outputs updates = Except.ok signature)
    {slot : SharedSlot} (member : slot ∈ signature.shared) {expression : VarId}
    (updated : slot.update = some expression) :
    ∃ var, graph.vars[expression.index]? = some var ∧
      var.type.element = (memory.container slot.container).type.element ∧
      var.type.rank = (memory.container slot.container).type.rank := by
  simp only [collect, Checked.bind_eq_ok_iff] at collected
  rcases collected with ⟨_, _, _, _, _, _, result, _, _, checked, same⟩
  cases same
  have checked := Checked.forM_eq_ok_iff.mp checked slot member
  unfold checkShared at checked
  dsimp only at checked
  split at checked
  · cases checked
  · rw [updated] at checked
    simp only [Checked.bind_eq_ok_iff, Graph.getVar_eq_ok] at checked
    rcases checked with ⟨var, found, checked⟩
    split at checked
    · rename_i agrees
      exact ⟨var, found, by simpa using agrees⟩
    · cases checked

end Signature

end ArrayGraph
