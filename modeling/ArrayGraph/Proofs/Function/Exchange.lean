import Mathlib.Logic.Equiv.Basic
import ArrayGraph.Proofs.Function.Meaning
import ArrayGraph.Proofs.Function.ReadAs
import ArrayGraph.Proofs.Function.Rearranged

/-!
# Compilations that differ in what stands for containers

Once the aliases are replaced, one variable stands for each container. Which one that is depends on what
a function reads. Two graphs that read different variables of the same containers differ by the exchange
of these variables and by nothing else, and so do the graphs that all later steps of a compilation make
of them.
-/

namespace ArrayGraph

variable {α : Type} {source : Graph α} {f : VarId → VarId}

/-- With keys that are all different, a search by key finds the item that has the key. -/
theorem find?_eq_some_iff_of_distinct {κ ι : Type} [DecidableEq ι] {items : List κ} {key : κ → ι}
    (distinct : (items.map key).Nodup) {wanted : ι} {item : κ} :
    items.find? (key · = wanted) = some item ↔ item ∈ items ∧ key item = wanted := by
  constructor
  · intro found
    exact ⟨List.mem_of_find?_eq_some found, by simpa using List.find?_some found⟩
  · rintro ⟨member, rfl⟩
    cases found : items.find? (key · = key item) with
    | none => simpa using List.find?_eq_none.mp found item member
    | some first =>
      have same : key first = key item := by simpa using List.find?_some found
      rw [List.inj_on_of_nodup_map distinct (List.mem_of_find?_eq_some found) member same]

/-- Variables of one container are of one type. -/
def Graph.TypesShared (source : Graph α) : Prop :=
  ∀ (id other : VarId) var var' container, source.vars[id.index]? = some var →
    source.vars[other.index]? = some var' → var.kind = .shared container →
      var'.kind = .shared container → var'.type = var.type

namespace Signature

variable {signature signature' : Signature} {id other : VarId} {container : ContainerId}

/-- The variable that stands for a variable once the aliases are replaced: that of its container, if it
has one. -/
def canonical (source : Graph α) (signature : Signature) (id : VarId) : VarId :=
  match source.vars[id.index]?.bind Variable.container? with
  | some container =>
    ((signature.shared.find? (·.container = container)).map (·.var)).getD id
  | none => id

theorem container?_of_hasKind (kind : source.HasKind id (.shared container)) :
    source.vars[id.index]?.bind Variable.container? = some container := by
  rcases kind with ⟨var, found, kind⟩
  simp [found, Variable.container?, kind]

theorem hasKind_of_container?
    (kind : source.vars[id.index]?.bind Variable.container? = some container) :
    source.HasKind id (.shared container) := by
  rcases Option.bind_eq_some_iff.mp kind with ⟨var, found, kind⟩
  refine ⟨var, found, ?_⟩
  cases same : var.kind <;> simp [Variable.container?, same] at kind
  rw [kind]

theorem canonical_of_forall_ne (other : ∀ container, ¬source.HasKind id (.shared container)) :
    signature.canonical source id = id := by
  unfold canonical
  split
  · rename_i container kind
    exact absurd (hasKind_of_container? kind) (other container)
  · rfl

theorem canonical_of_unlisted (kind : source.HasKind id (.shared container))
    (unlisted : container ∉ signature.shared.map (·.container)) :
    signature.canonical source id = id := by
  have none : signature.shared.find? (·.container = container) = none := by
    rw [List.find?_eq_none]
    intro slot member same
    exact unlisted (List.mem_map.mpr ⟨slot, member, by simpa using same⟩)
  simp only [canonical, container?_of_hasKind kind, none, Option.map_none, Option.getD_none]

theorem Covers.exists_slot (lists : signature.Lists source) (covers : signature.Covers id)
    (kind : source.HasKind id (.shared container)) :
    ∃ slot ∈ signature.shared, slot.container = container := by
  have same : ∀ slot ∈ signature.shared, source.HasKind id (.shared slot.container) →
      slot.container = container := by
    intro slot _ kind'
    have containers := kind'.unique kind
    rwa [VarKind.shared.injEq] at containers
  rcases covers with ⟨slot, member, rfl⟩ | ⟨input, listed⟩
  · exact ⟨slot, member, same slot member (lists.shared slot member)⟩
  · rcases lists.aliases _ listed with ⟨slot, member, -, kind'⟩
    exact ⟨slot, member, same slot member kind'⟩

/-- There is one slot for a container. -/
theorem Lists.slot_unique (lists : signature.Lists source) {slot slot' : SharedSlot}
    (member : slot ∈ signature.shared) (member' : slot' ∈ signature.shared)
    (same : slot.container = slot'.container) : slot = slot' :=
  List.inj_on_of_nodup_map lists.containers_distinct member member' same

theorem Lists.canonical_of_slot (lists : signature.Lists source) {slot : SharedSlot}
    (member : slot ∈ signature.shared) (kind : source.HasKind id (.shared slot.container)) :
    signature.canonical source id = slot.var := by
  have first : signature.shared.find? (·.container = slot.container) = some slot :=
    (find?_eq_some_iff_of_distinct lists.containers_distinct).mpr ⟨member, rfl⟩
  simp only [canonical, container?_of_hasKind kind, first, Option.map_some, Option.getD_some]

section Aliases

/-- Replacing aliases leaves the variables that stand for containers as they are. -/
theorem Lists.redirectAll_of_slot (lists : signature.Lists source) {pairs : List (VarId × VarId)}
    (aliases : ∀ pair ∈ pairs, ∃ slot ∈ signature.shared, slot.var = pair.2 ∧
      source.HasKind pair.1 (.shared slot.container))
    {slot : SharedSlot} (member : slot ∈ signature.shared) :
    VarId.redirectAll pairs slot.var = slot.var := by
  induction pairs with
  | nil => rfl
  | cons pair rest ih =>
    rcases pair with ⟨old, new⟩
    have kept : VarId.redirect old new slot.var = slot.var := by
      unfold VarId.redirect
      split
      · rename_i same
        rcases aliases (old, new) (by simp) with ⟨slot', member', rfl, kind⟩
        have kind' := lists.shared slot member
        rw [same] at kind'
        have containers := kind.unique kind'
        rw [VarKind.shared.injEq] at containers
        rw [lists.slot_unique member' member containers]
      · rfl
    rw [VarId.redirectAll, kept]
    exact ih fun pair listed => aliases pair (by simp [listed])

/-- Replacing aliases leaves variables that stand for no container as they are. -/
theorem redirectAll_of_forall_ne {pairs : List (VarId × VarId)}
    (aliases : ∀ pair ∈ pairs, ∃ slot ∈ signature.shared, slot.var = pair.2 ∧
      source.HasKind pair.1 (.shared slot.container))
    (other : ∀ container, ¬source.HasKind id (.shared container)) :
    VarId.redirectAll pairs id = id := by
  induction pairs with
  | nil => rfl
  | cons pair rest ih =>
    rcases pair with ⟨old, new⟩
    have kept : VarId.redirect old new id = id := by
      rcases aliases (old, new) (by simp) with ⟨slot, -, -, kind⟩
      exact if_neg fun same => other _ (same ▸ kind)
    rw [VarId.redirectAll, kept]
    exact ih fun pair listed => aliases pair (by simp [listed])

theorem Lists.redirectAll_of_mem (lists : signature.Lists source) {pairs : List (VarId × VarId)}
    (aliases : ∀ pair ∈ pairs, ∃ slot ∈ signature.shared, slot.var = pair.2 ∧
      source.HasKind pair.1 (.shared slot.container))
    {new : VarId} (listed : (id, new) ∈ pairs) :
    VarId.redirectAll pairs id = signature.canonical source id := by
  induction pairs with
  | nil => cases listed
  | cons pair rest ih =>
    rcases pair with ⟨old, input⟩
    have others : ∀ pair ∈ rest, ∃ slot ∈ signature.shared, slot.var = pair.2 ∧
        source.HasKind pair.1 (.shared slot.container) :=
      fun pair listed => aliases pair (by simp [listed])
    rw [VarId.redirectAll]
    by_cases same : id = old
    · subst same
      rcases aliases (id, input) (by simp) with ⟨slot, member, rfl, kind⟩
      rw [VarId.redirect, if_pos rfl, lists.redirectAll_of_slot others member,
        lists.canonical_of_slot member kind]
    · rw [VarId.redirect, if_neg same]
      refine ih others ?_
      rcases List.mem_cons.mp listed with first | later
      · cases first
        exact absurd rfl same
      · exact later

/-- Replacing aliases lets one variable stand for each container that is read. -/
theorem Lists.redirectAll_eq (lists : signature.Lists source)
    (covers : ∀ container, source.HasKind id (.shared container) → signature.Covers id) :
    VarId.redirectAll signature.aliases id = signature.canonical source id := by
  by_cases shared : ∃ container, source.HasKind id (.shared container)
  · rcases shared with ⟨container, kind⟩
    rcases covers container kind with ⟨slot, member, rfl⟩ | ⟨input, listed⟩
    · rw [lists.redirectAll_of_slot lists.aliases member,
        lists.canonical_of_slot member (lists.shared slot member)]
    · exact lists.redirectAll_of_mem lists.aliases listed
  · rw [not_exists] at shared
    rw [redirectAll_of_forall_ne lists.aliases shared, canonical_of_forall_ne shared]

end Aliases

/-- Every variable that the outputs are computed from and that stands for a container is known. -/
def CoversReads (signature : Signature) (graph : Graph α) : Prop :=
  ∃ reached : List VarId, (∀ var ∈ signature.outputVars, var ∈ reached) ∧
    (∀ var ∈ reached, ∀ operand ∈ graph.operands var, operand ∈ reached) ∧
    ∀ var ∈ reached, ∀ container, graph.HasKind var (.shared container) → signature.Covers var

/-- Exchanges the variables that stand for a container in two signatures. -/
def exchange (source : Graph α) (signature signature' : Signature) (id : VarId) : VarId :=
  Equiv.swap (signature.canonical source id) (signature'.canonical source id) id

namespace Alike

variable {front back back' : List SharedSlot} (alike : signature.Alike f front back back' signature')

include alike

/-- A container has a slot in both signatures, with the same update. -/
theorem exists_slot {slot : SharedSlot} (member : slot ∈ signature.shared) :
    ∃ slot' ∈ signature'.shared, slot'.container = slot.container ∧
      slot'.update = slot.update.map f ∧ slot'.borrow = slot.borrow := by
  rw [alike.shared, List.mem_append] at member
  rw [alike.shared']
  rcases member with member | member
  · exact ⟨slot.readAs f, List.mem_append_left _ (List.mem_map_of_mem member), rfl, rfl, rfl⟩
  · rcases List.mem_map.mp (alike.containers.mem_iff.mp (List.mem_map_of_mem member)) with
      ⟨slot', member', same⟩
    rcases alike.plain slot member with ⟨update, borrow⟩
    rcases alike.plain' slot' member' with ⟨update', borrow'⟩
    exact ⟨slot', List.mem_append_right _ member', same, by rw [update, update']; rfl,
      borrow'.trans borrow.symm⟩

theorem exists_slot' {slot' : SharedSlot} (member : slot' ∈ signature'.shared) :
    ∃ slot ∈ signature.shared, slot'.container = slot.container ∧
      slot'.update = slot.update.map f ∧ slot'.borrow = slot.borrow := by
  rw [alike.shared', List.mem_append] at member
  rw [alike.shared]
  rcases member with member | member
  · rcases List.mem_map.mp member with ⟨slot, original, rfl⟩
    exact ⟨slot, List.mem_append_left _ original, rfl, rfl, rfl⟩
  · rcases List.mem_map.mp (alike.containers.mem_iff.mpr (List.mem_map_of_mem member)) with
      ⟨slot, member', same⟩
    rcases alike.plain slot member' with ⟨update, borrow⟩
    rcases alike.plain' slot' member with ⟨update', borrow'⟩
    exact ⟨slot, List.mem_append_right _ member', same.symm, by rw [update, update']; rfl,
      borrow'.trans borrow.symm⟩

/-- The same containers are updated. -/
theorem updated_eq : signature'.updated =
    signature.updated.map fun (slot, expression) => (slot.readAs f, f expression) := by
  have unwritten : ∀ slots : List SharedSlot,
      (∀ slot ∈ slots, slot.update = none ∧ slot.borrow = false) →
        slots.filterMap (fun slot => slot.update.map fun expression => (slot, expression)) = [] := by
    intro slots plain
    rw [List.filterMap_eq_nil_iff]
    intro slot member
    rw [(plain slot member).1, Option.map_none]
  rw [updated, updated, alike.shared, alike.shared', List.filterMap_append, List.filterMap_append,
    unwritten back alike.plain, unwritten back' alike.plain', List.append_nil, List.append_nil,
    List.filterMap_map, List.map_filterMap]
  refine List.filterMap_congr fun slot _ => ?_
  simp only [Function.comp_apply, SharedSlot.readAs, Option.map_map]
  rfl

theorem outputVars_eq : signature'.outputVars = signature.outputVars.map f := by
  rw [outputVars, outputVars, alike.outputs, alike.updated_eq, List.map_append, List.map_map,
    List.map_map, List.map_map, List.map_map]
  rfl

theorem mem_front_of_updated {slot : SharedSlot} {expression : VarId}
    (member : (slot, expression) ∈ signature.updated) : slot ∈ front := by
  rcases List.mem_filterMap.mp member with ⟨slot, listed, written⟩
  rcases Option.map_eq_some_iff.mp written with ⟨_, update, same⟩
  rw [Prod.mk.injEq] at same
  rcases same with ⟨rfl, rfl⟩
  rw [alike.shared, List.mem_append] at listed
  refine listed.resolve_right fun plain => ?_
  rw [(alike.plain _ plain).1] at update
  cases update

end Alike

/-- Two signatures of a function, one for each of two ways to read the same containers. -/
structure Corresponds (source : Graph α) (f : VarId → VarId) (front back back' : List SharedSlot)
    (signature signature' : Signature) : Prop where
  interchanges : source.Interchanges f
  typed : source.TypesShared
  alike : signature.Alike f front back back' signature'
  lists : signature.Lists source
  lists' : signature'.Lists source
  covers : signature.CoversReads source
  covers' : signature'.CoversReads (source.readAs f)

namespace Corresponds

variable {front back back' : List SharedSlot}
  (corresponds : Corresponds source f front back back' signature signature')

include corresponds

/-- What stands for a container in one signature is exchanged for what does so in the other one. -/
theorem exchange_of_slots {slot slot' : SharedSlot} (member : slot ∈ signature.shared)
    (member' : slot' ∈ signature'.shared) (same : slot'.container = slot.container)
    (kind : source.HasKind id (.shared slot.container)) :
    exchange source signature signature' id = Equiv.swap slot.var slot'.var id := by
  rw [exchange, corresponds.lists.canonical_of_slot member kind,
    corresponds.lists'.canonical_of_slot member' (same ▸ kind)]

theorem exchange_slot {slot slot' : SharedSlot} (member : slot ∈ signature.shared)
    (member' : slot' ∈ signature'.shared) (same : slot'.container = slot.container) :
    exchange source signature signature' slot.var = slot'.var := by
  rw [corresponds.exchange_of_slots member member' same (corresponds.lists.shared slot member),
    Equiv.swap_apply_left]

/-- A variable stays, or its container is in both signatures. -/
theorem exchange_cases (id : VarId) : exchange source signature signature' id = id ∨
    ∃ slot ∈ signature.shared, ∃ slot' ∈ signature'.shared, slot'.container = slot.container ∧
      source.HasKind id (.shared slot.container) := by
  by_cases shared : ∃ container, source.HasKind id (.shared container)
  · rcases shared with ⟨container, kind⟩
    by_cases listed : container ∈ signature.shared.map (·.container)
    · rcases List.mem_map.mp listed with ⟨slot, member, rfl⟩
      rcases corresponds.alike.exists_slot member with ⟨slot', member', same, -⟩
      exact Or.inr ⟨slot, member, slot', member', same, kind⟩
    · have unlisted : container ∉ signature'.shared.map (·.container) := by
        intro listed'
        rcases List.mem_map.mp listed' with ⟨slot', member', rfl⟩
        rcases corresponds.alike.exists_slot' member' with ⟨slot, member, same, -⟩
        exact listed (same ▸ List.mem_map_of_mem member)
      rw [exchange, canonical_of_unlisted kind listed, canonical_of_unlisted kind unlisted]
      exact Or.inl (Equiv.swap_self id ▸ rfl)
  · rw [not_exists] at shared
    rw [exchange, canonical_of_forall_ne shared, canonical_of_forall_ne shared]
    exact Or.inl (Equiv.swap_self id ▸ rfl)

/-- An exchange of variables stays within a container. -/
theorem exchange_hasKind (kind : source.HasKind id (.shared container)) :
    source.HasKind (exchange source signature signature' id) (.shared container) := by
  rcases corresponds.exchange_cases id with same | ⟨slot, member, slot', member', same, kind'⟩
  · rwa [same]
  · have containers := kind.unique kind'
    rw [VarKind.shared.injEq] at containers
    subst containers
    rw [corresponds.exchange_of_slots member member' same kind, Equiv.swap_apply_def]
    split_ifs
    · exact same ▸ corresponds.lists'.shared slot' member'
    · exact corresponds.lists.shared slot member
    · exact kind

theorem exchange_of_forall_ne (other : ∀ container, ¬source.HasKind id (.shared container)) :
    exchange source signature signature' id = id := by
  rcases corresponds.exchange_cases id with same | ⟨slot, _, _, _, _, kind⟩
  · exact same
  · exact absurd kind (other slot.container)

theorem exchange_argument {argument : Argument} (member : argument ∈ signature.arguments) :
    exchange source signature signature' argument.var = argument.var := by
  refine corresponds.exchange_of_forall_ne fun container kind => ?_
  rcases corresponds.lists.arguments argument member with ⟨var, found, input, -⟩
  exact VarKind.noConfusion (Graph.HasKind.unique kind ⟨var, found, input⟩)

theorem exchange_exchange (id : VarId) :
    exchange source signature signature' (exchange source signature signature' id) = id := by
  rcases corresponds.exchange_cases id with same | ⟨slot, member, slot', member', same, kind⟩
  · rw [same, same]
  · have kept := corresponds.exchange_hasKind kind
    rw [corresponds.exchange_of_slots member member' same kept,
      corresponds.exchange_of_slots member member' same kind, Equiv.swap_apply_self]

theorem exchange_eq_iff {id other : VarId} :
    exchange source signature signature' id = exchange source signature signature' other ↔
      id = other :=
  (Function.LeftInverse.injective corresponds.exchange_exchange).eq_iff

/-- Variables stand for a container that is lent or updated in one signature if those they are
exchanged for do so in the other one. -/
theorem exists_slot_iff (id : VarId) (lent updated : Bool) :
    (∃ slot' ∈ signature'.shared, slot'.var = exchange source signature signature' id ∧
        slot'.borrow = lent ∧ slot'.update.isSome = updated) ↔
      ∃ slot ∈ signature.shared, slot.var = id ∧ slot.borrow = lent ∧
        slot.update.isSome = updated := by
  constructor
  · rintro ⟨slot', member', var, rfl, rfl⟩
    rcases corresponds.alike.exists_slot' member' with ⟨slot, member, container, update, borrow⟩
    rw [← corresponds.exchange_slot member member' container, corresponds.exchange_eq_iff] at var
    exact ⟨slot, member, var, borrow.symm, by rw [update, Option.isSome_map]⟩
  · rintro ⟨slot, member, rfl, rfl, rfl⟩
    rcases corresponds.alike.exists_slot member with ⟨slot', member', container, update, borrow⟩
    exact ⟨slot', member', (corresponds.exchange_slot member member' container).symm, borrow,
      by rw [update, Option.isSome_map]⟩

/-- The exchange goes with any graph over the variables. -/
theorem exchanges {graph : Dataflow α} (vars : graph.vars = source.vars) :
    graph.Exchanges (exchange source signature signature') := by
  have found : ∀ {id : VarId} {var : Variable}, source.vars[id.index]? = some var →
      graph.var id = var := by
    intro id var found
    rw [Dataflow.var, vars, found, Option.getD_some]
  have moved : ∀ id, exchange source signature signature' id ≠ id →
      ∃ container var var', source.vars[id.index]? = some var ∧ var.kind = .shared container ∧
        source.vars[(exchange source signature signature' id).index]? = some var' ∧
          var'.kind = .shared container := by
    intro id moved
    rcases corresponds.exchange_cases id with same | ⟨slot, _, _, _, _, kind⟩
    · exact absurd same moved
    · rcases corresponds.exchange_hasKind kind with ⟨var', found', kind'⟩
      rcases kind with ⟨var, found, kind⟩
      exact ⟨_, var, var', found, kind, found', kind'⟩
  refine ⟨corresponds.exchange_exchange, fun id => ?_, fun id => ?_, fun id other => ?_⟩
  · by_cases same : exchange source signature signature' id = id
    · rw [same]
    · rcases moved id same with ⟨container, var, var', first, kind, second, kind'⟩
      simp only [Dataflow.type, found first, found second,
        corresponds.typed id _ var var' container first second kind kind']
  · by_cases same : exchange source signature signature' id = id
    · rw [same]
    · rcases moved id same with ⟨container, var, var', first, kind, second, kind'⟩
      rw [found first, found second, kind, kind']
  · rcases moved id other with ⟨container, var, _, first, kind, _⟩
    exact ⟨container, by rw [found first, kind]⟩

/-- What one graph reads once its aliases are replaced is exchanged for what the other one reads. -/
theorem redirectAll_eq (covers : ∀ container, source.HasKind id (.shared container) →
      signature.Covers id)
    (covers' : ∀ container, source.HasKind (f id) (.shared container) → signature'.Covers (f id)) :
    VarId.redirectAll signature'.aliases (f id) =
      exchange source signature signature' (VarId.redirectAll signature.aliases id) := by
  rw [corresponds.lists.redirectAll_eq covers, corresponds.lists'.redirectAll_eq covers']
  by_cases shared : ∃ container, source.HasKind id (.shared container)
  · rcases shared with ⟨container, kind⟩
    rcases (covers container kind).exists_slot corresponds.lists kind with ⟨slot, member, rfl⟩
    rcases corresponds.alike.exists_slot member with ⟨slot', member', same, -⟩
    have kind' := (corresponds.interchanges.hasKind_iff id _).mpr kind
    rw [corresponds.lists.canonical_of_slot member kind,
      corresponds.lists'.canonical_of_slot member' (same ▸ kind'),
      corresponds.exchange_slot member member' same]
  · have still : f id = id := by
      by_contra moved
      rcases corresponds.interchanges id moved with ⟨var, _, container, found, _, kind, _⟩
      exact shared ⟨container, var, found, kind⟩
    rw [not_exists] at shared
    rw [still, canonical_of_forall_ne shared, canonical_of_forall_ne shared,
      corresponds.exchange_of_forall_ne shared]

end Corresponds

section Rearranging

/-- Signatures of functions that read the same containers are alike for calls. -/
theorem Alike.exists_rearrangement {front back back' : List SharedSlot}
    (alike : signature.Alike f front back back' signature') :
    ∃ π, signature.Rearranges π signature' := by
  let before : List ContainerId := List.replicate signature.arguments.length default
  rcases Arranges.exists_of_perm (before ++ front.map (·.container)) alike.containers with
    ⟨π, arranges, fixed⟩
  have length : before.length = signature.arguments.length := List.length_replicate
  have containers : signature.shared.map (·.container) =
      front.map (·.container) ++ back.map (·.container) := by
    rw [alike.shared, List.map_append]
  have containers' : signature'.shared.map (·.container) =
      front.map (·.container) ++ back'.map (·.container) := by
    rw [alike.shared', List.map_append, List.map_map]
    rfl
  simp only [List.length_append, List.length_map, length] at fixed
  rw [List.append_assoc, List.append_assoc, ← containers, ← containers'] at arranges
  -- Nothing behind the front is updated.
  have unwritten : ∀ slots : List SharedSlot,
      (∀ slot ∈ slots, slot.update = none ∧ slot.borrow = false) →
        true ∉ slots.map (·.update.isSome) := by
    intro slots plain listed
    rcases List.mem_map.mp listed with ⟨slot, member, written⟩
    simp [(plain slot member).1] at written
  have writable : Dataflow.positions signature.writable true =
      Dataflow.positions (signature.arguments.map (·.mutable) ++ front.map (·.update.isSome)) true := by
    rw [writable, alike.shared, List.map_append, ← List.append_assoc,
      Dataflow.positions_append_of_not_mem (unwritten back alike.plain)]
  have writable' : Dataflow.positions signature'.writable true =
      Dataflow.positions (signature.arguments.map (·.mutable) ++ front.map (·.update.isSome)) true := by
    have updates : (front.map (SharedSlot.readAs f)).map (·.update.isSome) =
        front.map (·.update.isSome) := by
      simp [SharedSlot.readAs, Function.comp_def]
    rw [Signature.writable, alike.shared', alike.arguments, List.map_append, ← List.append_assoc,
      Dataflow.positions_append_of_not_mem (unwritten back' alike.plain'), updates]
  refine ⟨π, alike.arguments, by rw [alike.outputs, List.length_map], ?_, fun given f same =>
    arranges.behind (fun place within => fixed place ?_) (same.trans length.symm) f,
      writable'.trans writable.symm, fun place member => fixed place ?_⟩
  · rw [alike.updated_eq, List.map_map]
    rfl
  · omega
  · rw [writable, Dataflow.mem_positions] at member
    simpa using (List.getElem?_eq_some_iff.mp member).1

/-- The variable that stands for a container. -/
def varOf (signature : Signature) (container : ContainerId) : VarId :=
  ((signature.shared.find? (·.container = container)).map (·.var)).getD default

theorem Lists.varOf_slot (lists : signature.Lists source) {slot : SharedSlot}
    (member : slot ∈ signature.shared) : signature.varOf slot.container = slot.var := by
  have first : signature.shared.find? (·.container = slot.container) = some slot :=
    (find?_eq_some_iff_of_distinct lists.containers_distinct).mpr ⟨member, rfl⟩
  rw [varOf, first, Option.map_some, Option.getD_some]

/-- The inputs of the graphs stand in these places. -/
theorem Corresponds.arranges_inputVars {front back back' : List SharedSlot}
    (corresponds : Corresponds source f front back back' signature signature')
    {π : Equiv.Perm Nat} (rearranges : signature.Rearranges π signature') :
    Arranges π (signature.inputVars.map (exchange source signature signature'))
      signature'.inputVars := by
  have arguments : (signature.arguments.map (·.var)).map (exchange source signature signature') =
      signature'.arguments.map (·.var) := by
    rw [corresponds.alike.arguments, List.map_map]
    exact List.map_congr_left fun argument member => corresponds.exchange_argument member
  have shared : (signature.shared.map (·.var)).map (exchange source signature signature') =
      (signature.shared.map (·.container)).map signature'.varOf := by
    rw [List.map_map, List.map_map]
    refine List.map_congr_left fun slot member => ?_
    rcases corresponds.alike.exists_slot member with ⟨slot', member', container, -⟩
    simp only [Function.comp_apply, corresponds.exchange_slot member member' container, ← container,
      corresponds.lists'.varOf_slot member']
  have shared' : signature'.shared.map (·.var) =
      (signature'.shared.map (·.container)).map signature'.varOf := by
    rw [List.map_map]
    exact List.map_congr_left fun slot member => (corresponds.lists'.varOf_slot member).symm
  rw [inputVars, inputVars, List.map_append, arguments, shared, shared']
  exact rearranges.arranges _ _ (by rw [List.length_map, corresponds.alike.arguments])

end Rearranging

section Capturing

theorem Lists.requireRoots (lists : signature.Lists source) :
    Dataflow.requireRoots source signature.inputVars = Except.ok () := by
  have roots : ∀ id ∈ signature.inputVars, ∃ var, source.vars[id.index]? = some var ∧ var.isRoot := by
    intro id member
    rcases List.mem_append.mp member with listed | listed
    · rcases List.mem_map.mp listed with ⟨argument, declared, rfl⟩
      rcases lists.arguments argument declared with ⟨var, found, kind, -⟩
      exact ⟨var, found, by simp [Variable.isRoot, Variable.producer?, kind]⟩
    · rcases List.mem_map.mp listed with ⟨slot, declared, rfl⟩
      rcases lists.shared slot declared with ⟨var, found, kind⟩
      exact ⟨var, found, by simp [Variable.isRoot, Variable.producer?, kind]⟩
  generalize signature.inputVars = inputs at roots
  induction inputs with
  | nil => rfl
  | cons id rest ih =>
    rcases roots id (by simp) with ⟨var, found, isRoot⟩
    rw [Dataflow.requireRoots, Graph.getVar_eq_ok.mpr found, Checked.ok_bind, if_pos isRoot]
    exact ih fun id member => roots id (by simp [member])

/-- An alias is replaced by a variable of its container. -/
theorem Lists.replaces (lists : signature.Lists source) (typed : source.TypesShared)
    {graph : Dataflow α} (vars : graph.vars = source.vars) :
    ∀ pair ∈ signature.aliases, graph.Replaces pair.1 pair.2 := by
  intro pair listed
  rcases lists.aliases pair listed with ⟨slot, member, same, kind⟩
  have kind' := lists.shared slot member
  rw [same] at kind'
  rcases kind with ⟨var, found, kind⟩
  rcases kind' with ⟨var', found', kind'⟩
  have content : graph.var pair.1 = var := by rw [Dataflow.var, vars, found, Option.getD_some]
  have content' : graph.var pair.2 = var' := by rw [Dataflow.var, vars, found', Option.getD_some]
  refine ⟨?_, ?_, ?_, fun id index => ?_, fun id index => ?_⟩
  · rw [vars]
    exact (Array.getElem?_eq_some_iff.mp found).1
  · rw [vars]
    exact (Array.getElem?_eq_some_iff.mp found').1
  · rw [Dataflow.type, Dataflow.type, content, content',
      typed pair.1 pair.2 var var' slot.container found found' kind kind']
  · rw [content, kind]
    exact VarKind.noConfusion
  · rw [content', kind']
    exact VarKind.noConfusion

theorem Lists.replaceAll_aliases (lists : signature.Lists source) (typed : source.TypesShared)
    {graph : Dataflow α} (vars : graph.vars = source.vars) (pruned : graph.Pruned)
    (produced : graph.OutputsProduced) :
    graph.replaceAll signature.aliases =
      Except.ok (graph.readAs (VarId.redirectAll signature.aliases)) :=
  Dataflow.replaceAll_of_replaces pruned produced (lists.replaces typed vars)

variable [Arithmetic α]

theorem outputsProduced_of_built (built : source.Built) (inputs outputs : List VarId) :
    (source.whole inputs outputs).prune.OutputsProduced := by
  intro id node live output member
  rcases List.mem_iff_getElem?.mp member with ⟨index, found⟩
  have whole : (source.whole [] []).node? id = some node := by
    have kept := (Dataflow.node?_prune.mp live).1
    rw [Graph.node?_whole] at kept ⊢
    exact kept
  exact ⟨id, index, (built.formed.output_known id node whole index output found).2⟩

omit [Arithmetic α] in
theorem Lists.mem_inputVars_iff (lists : signature.Lists source) {var : Variable}
    (found : source.vars[id.index]? = some var) (kind : var.kind = .input) :
    id ∈ signature.inputVars ↔ id ∈ signature.arguments.map (·.var) := by
  refine List.mem_append.trans (or_iff_left fun listed => ?_)
  rcases List.mem_map.mp listed with ⟨slot, member, rfl⟩
  exact VarKind.noConfusion ((lists.shared slot member).unique ⟨var, found, kind⟩)

namespace Corresponds

variable {front back back' : List SharedSlot}
  (corresponds : Corresponds source f front back back' signature signature')

include corresponds

omit [Arithmetic α] in
/-- What one captured graph reads is exchanged for what the other one reads. -/
theorem reads {captured captured' : Dataflow α} {requireDependence : Bool}
    (capturing : Dataflow.capture source signature.inputVars signature.outputVars requireDependence =
      Except.ok captured)
    (capturing' : Dataflow.capture (source.readAs f) signature'.inputVars signature'.outputVars
      requireDependence = Except.ok captured') {var : VarId} (read : captured.IsRead var)
    (read' : captured'.IsRead (f var)) :
    VarId.redirectAll signature'.aliases (f var) =
      exchange source signature signature' (VarId.redirectAll signature.aliases var) := by
  rcases corresponds.covers with ⟨reached, start, closed, covers⟩
  rcases corresponds.covers' with ⟨reached', start', closed', covers'⟩
  exact corresponds.redirectAll_eq (covers var (reached_of_isRead capturing start closed read))
    (covers' (f var) (reached_of_isRead capturing' start' closed' read'))

/-- Graphs that capture the same part of a symbolic graph differ by the exchange, once every container
is one variable in them. -/
theorem alike_replaceAll (built : source.Built) {π : Equiv.Perm Nat}
    (rearranges : signature.Rearranges π signature') {captured captured' : Dataflow α}
    {requireDependence : Bool}
    (capturing : Dataflow.capture source signature.inputVars signature.outputVars requireDependence =
      Except.ok captured)
    (capturing' : Dataflow.capture (source.readAs f) signature'.inputVars signature'.outputVars
      requireDependence = Except.ok captured')
    (part : captured = (source.whole signature.inputVars signature.outputVars).prune)
    (part' : captured' = (source.whole signature'.inputVars signature.outputVars).prune.readAs f) :
    (captured.replaceAll signature.aliases).Agree
      (Dataflow.Alike (exchange source signature signature') π)
      (captured'.replaceAll signature'.aliases) := by
  have produced := outputsProduced_of_built built signature.inputVars signature.outputVars
  have reads : ∀ var, captured.IsRead var → VarId.redirectAll signature'.aliases (f var) =
      exchange source signature signature' (VarId.redirectAll signature.aliases var) := by
    intro var read
    refine corresponds.reads capturing capturing' read ?_
    rw [part']
    rw [part] at read
    exact Dataflow.IsRead.readAs read
  have vars : captured.vars = source.vars := by
    rw [part]
    rfl
  have vars' : captured'.vars = source.vars := by
    rw [part']
    rfl
  have pruned' : captured'.Pruned := by
    rw [part']
    exact Dataflow.pruned_prune.readAs (corresponds.interchanges.keepsProducer rfl)
  have produced' : captured'.OutputsProduced := by
    rw [part']
    exact Dataflow.OutputsProduced.readAs produced
  rw [corresponds.lists.replaceAll_aliases corresponds.typed vars (part ▸ Dataflow.pruned_prune)
      (part ▸ produced),
    corresponds.lists'.replaceAll_aliases corresponds.typed vars' pruned' produced']
  refine .ok ?_
  rw [part', Dataflow.readAs_readAs]
  rw [part] at reads ⊢
  exact Dataflow.alike_readAs (corresponds.exchanges rfl) produced reads
    (corresponds.arranges_inputVars rearranges) corresponds.lists.nodup_inputVars rfl

/-- The captured graphs differ by the exchange, unless one of them is refused because an output
depends on no declared input. -/
theorem alike_captureGraph (built : source.Built) {π : Equiv.Perm Nat}
    (rearranges : signature.Rearranges π signature') (requireDependence : Bool) :
    (Compilation.captureGraph source signature requireDependence).Agree
        (Dataflow.Alike (exchange source signature signature') π)
        (Compilation.captureGraph (source.readAs f) signature' requireDependence) ∨
      requireDependence = true ∧ ∃ position,
        Compilation.captureGraph source signature requireDependence =
            Checked.raise (.disconnectedOutput position) ∨
          Compilation.captureGraph (source.readAs f) signature' requireDependence =
            Checked.raise (.disconnectedOutput position) := by
  have declared : ∀ (id : VarId) var, source.vars[id.index]? = some var → var.kind = .input →
      (id ∈ signature'.inputVars ↔ id ∈ signature.inputVars) := by
    intro id var found kind
    rw [corresponds.lists.mem_inputVars_iff found kind, corresponds.lists'.mem_inputVars_iff found kind,
      corresponds.alike.arguments]
  have captures := Dataflow.capture_readAs corresponds.interchanges signature.outputVars
    corresponds.lists.requireRoots corresponds.lists'.requireRoots declared requireDependence
  unfold Compilation.captureGraph
  rw [← corresponds.alike.outputVars_eq] at captures
  rcases captures with agree | ⟨required, position, refused | refused⟩
  · exact Or.inl (agree.bind_of_ok fun _ _ capturing capturing' parts =>
      corresponds.alike_replaceAll built rearranges capturing capturing' parts.1 parts.2)
  · refine Or.inr ⟨required, position, Or.inl ?_⟩
    rw [refused]
    rfl
  · refine Or.inr ⟨required, position, Or.inr ?_⟩
    rw [refused]
    rfl

end Corresponds

end Capturing

end Signature

end ArrayGraph
