import Mathlib.Data.List.Nodup
import ArrayGraph.Schedule
import ArrayGraph.Proofs.Dataflow.Order
import ArrayGraph.Proofs.Typing

/-!
# Slots stand for variables

Laying out a graph gives slots to variables one after the other, so the slot table is a list of
distinct variables in which the slot of a variable is its position. Everything else in a schedule is
read off that list: steps are nodes with variables replaced by slots, and the sources of root slots
are those of their variables. `LaysOut` says this of a schedule. What execution relies on follows
from it and the order of the nodes: no slot is written twice, root slots are never written, and no
slot is read before the step that writes it.
-/

namespace ArrayGraph

namespace Dataflow

variable {α : Type}

/-- What the slot of a variable is filled with, if it is a root: an argument if the variable is a
declared input. -/
def source? (graph : Dataflow α) (var : VarId) : Option Source :=
  if var ∈ graph.inputs then some (.argument (graph.inputs.idxOf var))
  else SlotTable.rootSource? (graph.var var).kind

theorem kind_of_source? {graph : Dataflow α} {var : VarId} {value : Value}
    (sourced : graph.source? var = some (.constant value)) :
    (graph.var var).kind = .constant value := by
  unfold source? at sourced
  split at sourced
  · cases sourced
  · cases kind : (graph.var var).kind <;> simp_all [SlotTable.rootSource?]

theorem WellFormed.source?_of_output [Arithmetic α] {graph : Dataflow α}
    (wellFormed : graph.WellFormed) {var : VarId} {id : NodeId} {index : Nat}
    (kind : (graph.var var).kind = .output id index) : graph.source? var = none := by
  rw [source?, if_neg fun input => (wellFormed.input_root var input).2 id index kind, kind]
  rfl

end Dataflow

theorem lookup_zipIdx {vars : List VarId} {var : VarId} (start : Nat) :
    (vars.zipIdx start).lookup var = if var ∈ vars then some (start + vars.idxOf var) else none := by
  induction vars generalizing start with
  | nil => rfl
  | cons head rest ih =>
    rw [List.zipIdx_cons, lookup_cons_ite, ih]
    by_cases same : var = head
    · simp [same]
    · have different : (head == var) = false := by simpa using fun equal => same equal.symm
      by_cases member : var ∈ rest
      · simp [same, member, List.idxOf_cons, different]
        omega
      · simp [same, member]

namespace SlotTable

variable {α : Type} {graph : Dataflow α} {table : SlotTable} {vars more : List VarId} {var : VarId}

/-- A slot table gives the variables of a list their positions as slots. -/
structure Numbers (graph : Dataflow α) (table : SlotTable) (vars : List VarId) : Prop where
  distinct : vars.Nodup
  slots : table.slots = vars.zipIdx
  roots : table.roots =
    vars.zipIdx.filterMap fun (var, slot) => (graph.source? var).map fun source => (slot, source)

theorem Numbers.lookup (numbers : Numbers graph table vars) (var : VarId) :
    table.slots.lookup var = if var ∈ vars then some (vars.idxOf var) else none := by
  rw [numbers.slots, lookup_zipIdx, Nat.zero_add]

theorem Numbers.length (numbers : Numbers graph table vars) : table.slots.length = vars.length := by
  simp [numbers.slots]

/-- A variable that has no slot yet gets the next one. -/
theorem Numbers.append (numbers : Numbers graph table vars) (unlisted : var ∉ vars) :
    Numbers graph ⟨table.slots ++ [(var, vars.length)],
      table.roots ++ ((graph.source? var).map fun source => (vars.length, source)).toList⟩
      (vars ++ [var]) where
  distinct := by
    rw [List.nodup_append]
    refine ⟨numbers.distinct, by simp, ?_⟩
    intro first firstMem second secondMem same
    rw [List.mem_singleton] at secondMem
    exact unlisted (secondMem ▸ same ▸ firstMem)
  slots := by simp [numbers.slots, List.zipIdx_append]
  roots := by
    rw [numbers.roots, List.zipIdx_append, List.filterMap_append]
    cases source : graph.source? var <;> simp [source]

theorem idxOf_of_prefix (member : var ∈ vars) (leads : vars <+: more) :
    more.idxOf var = vars.idxOf var := by
  rcases leads with ⟨rest, rfl⟩
  exact List.idxOf_append_of_mem member

/-- The slot of a variable is its position in the list, which may have become longer by it. -/
theorem Numbers.slotOf (numbers : Numbers graph table vars)
    (declared : ∀ input ∈ graph.inputs, input ∈ vars) (var : VarId) :
    ∃ more, vars <+: more ∧ (∀ other ∈ more, other ∈ vars ∨ other = var) ∧
      Numbers graph (SlotTable.slotOf graph table var).2 more ∧ var ∈ more ∧
      (SlotTable.slotOf graph table var).1 = more.idxOf var := by
  by_cases listed : var ∈ vars
  · have found := numbers.lookup var
    rw [if_pos listed] at found
    exact ⟨vars, List.prefix_rfl, fun other member => Or.inl member,
      by simpa [SlotTable.slotOf, found] using numbers, listed, by simp [SlotTable.slotOf, found]⟩
  · have found := numbers.lookup var
    rw [if_neg listed] at found
    have source : graph.source? var = rootSource? (graph.var var).kind := by
      rw [Dataflow.source?, if_neg fun input => listed (declared var input)]
    have appended := numbers.append listed
    rw [source] at appended
    refine ⟨vars ++ [var], List.prefix_append _ _, by simp, ?_, by simp, ?_⟩
    · simpa [SlotTable.slotOf, found, numbers.length] using appended
    · simp [SlotTable.slotOf, found, numbers.length, List.idxOf_append_of_notMem listed]

theorem Numbers.slotsOf (numbers : Numbers graph table vars)
    (declared : ∀ input ∈ graph.inputs, input ∈ vars) (ids : List VarId) :
    ∃ more, vars <+: more ∧ (∀ other ∈ more, other ∈ vars ∨ other ∈ ids) ∧
      Numbers graph (SlotTable.slotsOf graph table ids).2 more ∧
      (∀ id ∈ ids, id ∈ more) ∧ (SlotTable.slotsOf graph table ids).1 = ids.map more.idxOf := by
  induction ids generalizing table vars with
  | nil => exact ⟨vars, List.prefix_rfl, fun other member => Or.inl member, numbers, by simp, rfl⟩
  | cons id rest ih =>
    rcases numbers.slotOf declared id with ⟨middle, leads, origin, extended, listed, slot⟩
    rcases ih extended fun input member => leads.subset (declared input member) with
      ⟨more, leads', origin', final, restListed, slots⟩
    refine ⟨more, leads.trans leads', ?_, final, ?_, ?_⟩
    · intro other member
      rcases origin' other member with member | member
      · rcases origin other member with member | rfl
        · exact Or.inl member
        · simp
      · simp [member]
    · intro other member
      rcases List.mem_cons.mp member with rfl | member
      · exact leads'.subset listed
      · exact restListed other member
    · simp only [SlotTable.slotsOf, slots, slot, List.map_cons, idxOf_of_prefix listed leads']

theorem numbers_empty : Numbers graph empty [] := ⟨List.nodup_nil, rfl, rfl⟩

/-- Declaring distinct inputs gives each of them a slot with its position. -/
theorem numbers_declare (distinct : graph.inputs.Nodup) {front back : List VarId}
    (split : graph.inputs = front ++ back) (numbers : Numbers graph table front) :
    Numbers graph
      ((back.zipIdx front.length).foldl (fun table (id, index) => table.declare id index) table)
      graph.inputs := by
  induction back generalizing front table with
  | nil =>
    rw [List.append_nil] at split
    rw [split]
    exact numbers
  | cons id rest ih =>
    have unlisted : id ∉ front := by
      rw [split, List.nodup_append] at distinct
      intro member
      exact distinct.2.2 id member id (by simp) rfl
    have found := numbers.lookup id
    rw [if_neg unlisted] at found
    have source : graph.source? id = some (.argument front.length) := by
      rw [Dataflow.source?, if_pos (by simp [split]), split, List.idxOf_append_of_notMem unlisted]
      simp
    have appended := numbers.append unlisted
    rw [source] at appended
    have next := ih (by simp [split]) appended
    simpa [List.zipIdx_cons, declare, found, numbers.length] using next

end SlotTable

namespace Schedule

variable {α : Type} {graph : Dataflow α} {schedule : Schedule α} {order : List NodeId}
  {vars more : List VarId} {step : Step α} {id : NodeId} {node : Node α}

/-- A step is a node with its variables replaced by their slots. -/
structure StandsFor (vars : List VarId) (step : Step α) (id : NodeId) (node : Node α) : Prop where
  named : step.node = id
  op : step.op = node.op
  inputs : step.inputs = node.inputs.map vars.idxOf
  outputs : step.outputs = node.outputs.map vars.idxOf
  inputs_listed : ∀ var ∈ node.inputs, var ∈ vars
  outputs_listed : ∀ var ∈ node.outputs, var ∈ vars

theorem StandsFor.mono (stands : StandsFor vars step id node) (leads : vars <+: more) :
    StandsFor more step id node where
  named := stands.named
  op := stands.op
  inputs := by
    rw [stands.inputs]
    apply List.map_congr_left
    intro var member
    exact (SlotTable.idxOf_of_prefix (stands.inputs_listed var member) leads).symm
  outputs := by
    rw [stands.outputs]
    apply List.map_congr_left
    intro var member
    exact (SlotTable.idxOf_of_prefix (stands.outputs_listed var member) leads).symm
  inputs_listed var member := leads.subset (stands.inputs_listed var member)
  outputs_listed var member := leads.subset (stands.outputs_listed var member)

theorem StandsFor.mem_outputs_iff (stands : StandsFor vars step id node) {var : VarId} :
    vars.idxOf var ∈ step.outputs ↔ var ∈ node.outputs := by
  rw [stands.outputs, List.mem_map]
  refine ⟨?_, fun output => ⟨var, output, rfl⟩⟩
  rintro ⟨other, output, same⟩
  exact (List.idxOf_inj (stands.outputs_listed other output)).mp same ▸ output

theorem StandsFor.outputs_distinct (stands : StandsFor vars step id node)
    (distinct : node.outputs.Nodup) : step.outputs.Nodup := by
  rw [stands.outputs]
  exact distinct.map_on fun first output second _ same =>
    (List.idxOf_inj (stands.outputs_listed first output)).mp same

/-- Laying out nodes makes a step for each of them. -/
theorem layOut_numbers {table : SlotTable} (numbers : SlotTable.Numbers graph table vars)
    (declared : ∀ input ∈ graph.inputs, input ∈ vars) (nodes : List (NodeId × Node α)) :
    ∃ more, vars <+: more ∧
      (∀ var ∈ more, var ∈ vars ∨ ∃ entry ∈ nodes, var ∈ entry.2.inputs ∨ var ∈ entry.2.outputs) ∧
      SlotTable.Numbers graph (layOut graph table nodes).2 more ∧
      List.Forall₂ (fun entry step => StandsFor more step entry.1 entry.2) nodes
        (layOut graph table nodes).1 := by
  induction nodes generalizing table vars with
  | nil => exact ⟨vars, List.prefix_rfl, fun var member => Or.inl member, numbers, List.Forall₂.nil⟩
  | cons entry rest ih =>
    rcases entry with ⟨id, node⟩
    rcases numbers.slotsOf declared node.inputs with
      ⟨first, leads, origin, extended, listed, inputs⟩
    have declared' := fun input member => leads.subset (declared input member)
    rcases extended.slotsOf declared' node.outputs with
      ⟨second, leads', origin', extended', listed', outputs⟩
    have declared'' := fun input member => leads'.subset (declared' input member)
    rcases ih extended' declared'' with ⟨more, leads'', origin'', final, stand⟩
    refine ⟨more, (leads.trans leads').trans leads'', ?_, final, ?_⟩
    · intro var member
      rcases origin'' var member with member | ⟨entry, entryMem, used⟩
      · rcases origin' var member with member | member
        · rcases origin var member with member | member
          · exact Or.inl member
          · exact Or.inr ⟨(id, node), by simp, Or.inl member⟩
        · exact Or.inr ⟨(id, node), by simp, Or.inr member⟩
      · exact Or.inr ⟨entry, by simp [entryMem], used⟩
    · refine List.Forall₂.cons (StandsFor.mono ⟨rfl, rfl, ?_, outputs, ?_, listed'⟩ leads'') stand
      · rw [inputs]
        apply List.map_congr_left
        intro var member
        exact (SlotTable.idxOf_of_prefix (listed var member) leads').symm
      · exact fun var member => leads'.subset (listed var member)

/-- A schedule is a graph with its nodes in an order and its variables replaced by their positions
in a list. -/
structure LaysOut (schedule : Schedule α) (graph : Dataflow α) (order : List NodeId)
    (vars : List VarId) : Prop where
  distinct : vars.Nodup
  slotCount : schedule.slotCount = vars.length
  arity : schedule.arity = graph.inputs.length
  inputs_listed : ∀ var ∈ graph.inputs, var ∈ vars
  outputs_listed : ∀ var ∈ graph.outputs, var ∈ vars
  used : ∀ var ∈ vars, var ∈ graph.inputs ∨ graph.IsRead var ∨
    ∃ id node, graph.node? id = some node ∧ var ∈ node.outputs
  roots : schedule.roots =
    vars.zipIdx.filterMap fun (var, slot) => (graph.source? var).map fun source => (slot, source)
  steps : List.Forall₂ (fun id step => ∃ node, graph.node? id = some node ∧
    StandsFor vars step id node) order schedule.steps
  outputs : schedule.outputs = graph.outputs.map vars.idxOf
  frees : ∀ front step rest, schedule.steps = front ++ step :: rest → ∀ slot ∈ step.frees,
    slot ∈ step.inputs ∧ slot ∉ schedule.outputs ∧ ∀ later ∈ rest, slot ∉ later.inputs

theorem markFrees_stands {nodes : List (NodeId × Node α)} {steps : List (Step α)}
    {outputs : List Nat}
    (stand : List.Forall₂ (fun entry step => StandsFor vars step entry.1 entry.2) nodes steps) :
    List.Forall₂ (fun entry step => StandsFor vars step entry.1 entry.2) nodes
      (markFrees outputs steps) := by
  induction stand with
  | nil => exact List.Forall₂.nil
  | cons first _ ih =>
    exact List.Forall₂.cons ⟨first.named, first.op, first.inputs, first.outputs,
      first.inputs_listed, first.outputs_listed⟩ ih

theorem inputs_markFrees (outputs : List Nat) (steps : List (Step α)) :
    (markFrees outputs steps).map (·.inputs) = steps.map (·.inputs) := by
  induction steps with
  | nil => rfl
  | cons head rest ih => simp [markFrees, ih]

/-- A step frees what it reads, what no later step reads and what is no output. -/
theorem mem_frees_markFrees {outputs : List Nat} {steps front rest : List (Step α)}
    (split : markFrees outputs steps = front ++ step :: rest) {slot : Nat} :
    slot ∈ step.frees ↔
      slot ∈ step.inputs ∧ slot ∉ outputs ∧ ∀ later ∈ rest, slot ∉ later.inputs := by
  induction steps generalizing front with
  | nil => simp [markFrees] at split
  | cons head tail ih =>
    cases front with
    | cons _ front =>
      simp only [markFrees, List.cons_append, List.cons.injEq] at split
      exact ih split.2
    | nil =>
      simp only [markFrees, List.nil_append, List.cons.injEq] at split
      rcases split with ⟨rfl, rfl⟩
      have unread : (∀ later ∈ tail, slot ∉ later.inputs) ↔
          ∀ later ∈ markFrees outputs tail, slot ∉ later.inputs := by
        have inputs : ∀ steps : List (Step α), (∀ later ∈ steps, slot ∉ later.inputs) ↔
            ∀ inputs ∈ steps.map (·.inputs), slot ∉ inputs :=
          fun _ => by simp
        rw [inputs tail, inputs (markFrees outputs tail), inputs_markFrees]
      simp [unread]

/-- What linking lays out is the graph in the order that it finds. -/
theorem laysOut_of_ofGraph {orderings : Orderings} (distinct : graph.inputs.Nodup)
    (laid : ofGraph graph orderings = Except.ok schedule) :
    ∃ order vars, graph.order orderings = Except.ok order ∧ schedule.LaysOut graph order vars := by
  unfold ofGraph at laid
  rw [Checked.bind_eq_ok_iff] at laid
  rcases laid with ⟨order, ordered, same⟩
  have live : ∀ id ∈ order, ∃ node, graph.node? id = some node := fun id member =>
    Dataflow.mem_liveIds.mp ((Dataflow.respects_of_order ordered).complete.mem_iff.mp member)
  generalize nodesEq : (order.filterMap fun id => (graph.node? id).map fun node => (id, node)) =
    nodes at same
  have nodesLive : List.Forall₂ (fun id entry => id = entry.1 ∧ graph.node? id = some entry.2)
      order nodes := by
    clear ordered same
    induction order generalizing nodes with
    | nil => exact nodesEq ▸ List.Forall₂.nil
    | cons id rest ih =>
      rcases live id (by simp) with ⟨node, found⟩
      simp only [List.filterMap_cons, found, Option.map_some] at nodesEq
      subst nodesEq
      exact List.Forall₂.cons ⟨rfl, found⟩ (ih (fun id member => live id (by simp [member])) _ rfl)
  have declared := SlotTable.numbers_declare distinct (List.nil_append graph.inputs).symm
    SlotTable.numbers_empty
  rcases layOut_numbers declared (fun _ member => member) nodes with
    ⟨first, leads, origin, numbers, stand⟩
  rcases numbers.slotsOf (fun input member => leads.subset member) graph.outputs with
    ⟨vars, leads', origin', final, listed, outputs⟩
  have standAll : List.Forall₂ (fun entry step => StandsFor vars step entry.1 entry.2) nodes
      (layOut graph (graph.inputs.zipIdx.foldl (fun table (id, index) => table.declare id index)
        SlotTable.empty) nodes).1 := stand.imp fun entry step stands => stands.mono leads'
  cases same
  refine ⟨order, vars, ordered, ?_⟩
  exact {
    distinct := final.distinct
    slotCount := final.length
    arity := rfl
    inputs_listed := fun var member => leads'.subset (leads.subset member)
    outputs_listed := listed
    used := by
      intro var member
      rcases origin' var member with member | output
      · rcases origin var member with input | ⟨⟨id, node⟩, entryMem, used⟩
        · exact Or.inl input
        · rcases forall₂_mem_right nodesLive entryMem with ⟨_, _, rfl, found⟩
          rcases used with input | output
          · exact Or.inr (Or.inl (Or.inr ⟨_, node, found, input⟩))
          · exact Or.inr (Or.inr ⟨_, node, found, output⟩)
      · exact Or.inr (Or.inl (Or.inl output))
    roots := final.roots
    steps := by
      apply (forall₂_comp nodesLive (markFrees_stands standAll)).imp
      rintro id step ⟨⟨_, node⟩, ⟨rfl, live⟩, stands⟩
      exact ⟨node, live, stands⟩
    outputs := outputs
    frees := fun front step rest split slot freed => (mem_frees_markFrees split).mp freed }

/-- What execution relies on: slots exist, root slots are never written and other slots at most once,
and whoever reads a slot comes after whoever writes it. -/
structure Sound (schedule : Schedule α) : Prop where
  roots_known : ∀ slot source, (slot, source) ∈ schedule.roots → slot < schedule.slotCount
  steps_known : ∀ step ∈ schedule.steps, ∀ slot, slot ∈ step.inputs ∨ slot ∈ step.outputs →
    slot < schedule.slotCount
  outputs_known : ∀ slot ∈ schedule.outputs, slot < schedule.slotCount
  roots_kept : ∀ slot source, (slot, source) ∈ schedule.roots → ∀ step ∈ schedule.steps,
    slot ∉ step.outputs
  written_once : ∀ front step rest, schedule.steps = front ++ step :: rest →
    step.outputs.Nodup ∧ ∀ slot ∈ step.outputs, ∀ later ∈ rest, slot ∉ later.outputs
  written_first : ∀ front step rest, schedule.steps = front ++ step :: rest →
    ∀ slot ∈ step.inputs, ∀ later ∈ step :: rest, slot ∉ later.outputs
  frees : ∀ front step rest, schedule.steps = front ++ step :: rest → ∀ slot ∈ step.frees,
    slot ∈ step.inputs ∧ slot ∉ schedule.outputs ∧ ∀ later ∈ rest, slot ∉ later.inputs
  arity : ∀ step ∈ schedule.steps, step.inputs.length = step.op.arity
  results : ∀ step ∈ schedule.steps, step.outputs.length = step.op.resultCount
  /-- Every argument goes into a root slot. -/
  arguments : ∀ index < schedule.arity, ∃ slot, (slot, .argument index) ∈ schedule.roots
  /-- A root slot has one source. -/
  sources : ∀ slot source source', (slot, source) ∈ schedule.roots →
    (slot, source') ∈ schedule.roots → source = source'

theorem Sound.written_known (sound : schedule.Sound) (member : step ∈ schedule.steps) :
    ∀ slot ∈ step.outputs, slot < schedule.slotCount := fun slot output =>
  sound.steps_known step member slot (Or.inr output)

theorem Sound.freed_known (sound : schedule.Sound) (member : step ∈ schedule.steps) :
    ∀ slot ∈ step.frees, slot < schedule.slotCount := by
  intro slot freed
  rcases List.append_of_mem member with ⟨front, rest, split⟩
  exact sound.steps_known step member slot (Or.inl (sound.frees front step rest split slot freed).1)

/-- A slot that a step writes is the one of a variable that the step's node computes. -/
theorem StandsFor.written [Arithmetic α] {vars : List VarId} {id : NodeId} {node : Node α}
    (stands : StandsFor vars step id node) (wellFormed : graph.WellFormed)
    (live : graph.node? id = some node) {slot : Nat} (output : slot ∈ step.outputs) :
    ∃ var ∈ vars, slot = vars.idxOf var ∧ ∃ index : Nat, node.outputs[index]? = some var ∧
      graph.producerId? var = some id := by
  rw [stands.outputs] at output
  rcases List.mem_map.mp output with ⟨var, member, rfl⟩
  rcases List.mem_iff_getElem?.mp member with ⟨index, found⟩
  have known := (wellFormed.output_known id node live index var found).1
  exact ⟨var, stands.outputs_listed var member, rfl, index, found,
    (wellFormed.mem_outputs_iff known live).mp member⟩

namespace LaysOut

theorem slot_lt (laysOut : schedule.LaysOut graph order vars) {var : VarId} (listed : var ∈ vars) :
    vars.idxOf var < schedule.slotCount := by
  rw [laysOut.slotCount]
  exact List.idxOf_lt_length_of_mem listed

theorem mem_roots (laysOut : schedule.LaysOut graph order vars) {slot : Nat} {source : Source} :
    (slot, source) ∈ schedule.roots ↔
      ∃ var ∈ vars, graph.source? var = some source ∧ slot = vars.idxOf var := by
  simp only [laysOut.roots, List.mem_filterMap, Prod.exists, List.mk_mem_zipIdx_iff_getElem?,
    Option.map_eq_some_iff, Prod.mk.injEq]
  constructor
  · rintro ⟨var, position, found, _, sourceFound, rfl, rfl⟩
    rcases List.getElem?_eq_some_iff.mp found with ⟨known, rfl⟩
    exact ⟨_, List.getElem_mem known, sourceFound, (laysOut.distinct.idxOf_getElem _ known).symm⟩
  · rintro ⟨var, listed, sourceFound, rfl⟩
    exact ⟨var, vars.idxOf var, List.getElem?_idxOf listed, source, sourceFound, rfl, rfl⟩

/-- A root slot has one source. -/
theorem sources (laysOut : schedule.LaysOut graph order vars) (slot : Nat) (source source' : Source)
    (member : (slot, source) ∈ schedule.roots) (member' : (slot, source') ∈ schedule.roots) :
    source = source' := by
  rcases laysOut.mem_roots.mp member with ⟨var, listed, found, rfl⟩
  rcases laysOut.mem_roots.mp member' with ⟨other, _, found', same⟩
  cases (List.idxOf_inj listed).mp same
  exact Option.some.inj (found.symm.trans found')

/-- Every live node has a step. -/
theorem exists_stands (laysOut : schedule.LaysOut graph order vars)
    (topological : graph.Topological order) (live : graph.node? id = some node) :
    ∃ step ∈ schedule.steps, StandsFor vars step id node := by
  rcases forall₂_mem_right laysOut.steps.flip (topological.mem_of_live live) with
    ⟨step, member, node', live', stands⟩
  cases live.symm.trans live'
  exact ⟨step, member, stands⟩

variable [Arithmetic α] {orderings : Orderings}

omit [Arithmetic α] in
/-- Every step is one of a live node of the order. -/
theorem exists_node (laysOut : schedule.LaysOut graph order vars) (member : step ∈ schedule.steps) :
    ∃ id ∈ order, ∃ node, graph.node? id = some node ∧ StandsFor vars step id node :=
  forall₂_mem_right laysOut.steps member

section WellFormed

variable (laysOut : schedule.LaysOut graph order vars) (wellFormed : graph.WellFormed)
  {front rest : List (Step α)}
include laysOut wellFormed

/-- No step writes a root slot: what a node computes has no source. -/
theorem roots_kept {slot : Nat} {source : Source} (root : (slot, source) ∈ schedule.roots)
    (member : step ∈ schedule.steps) : slot ∉ step.outputs := by
  intro output
  rcases laysOut.mem_roots.mp root with ⟨var, listed, found, rfl⟩
  rcases laysOut.exists_node member with ⟨id, _, node, live, stands⟩
  rcases stands.written wellFormed live output with ⟨other, _, same, index, outputFound, _⟩
  cases (List.idxOf_inj listed).mp same
  have kind := (wellFormed.output_known id node live index var outputFound).2
  rw [wellFormed.source?_of_output kind] at found
  cases found

/-- A slot is written by one step at most, because a variable has one producer. -/
theorem written_once (respects : graph.Respects orderings order)
    (split : schedule.steps = front ++ step :: rest) :
    step.outputs.Nodup ∧ ∀ slot ∈ step.outputs, ∀ later ∈ rest, slot ∉ later.outputs := by
  have related := laysOut.steps
  rw [split] at related
  rcases forall₂_split related with ⟨front', id, rest', orderSplit, _, ⟨node, live, stands⟩, behind⟩
  have distinct := respects.distinct
  rw [orderSplit, List.nodup_append, List.nodup_cons] at distinct
  constructor
  · rw [stands.outputs]
    exact (wellFormed.outputs_nodup live).map_on fun first firstMem second _ same =>
      (List.idxOf_inj (stands.outputs_listed first firstMem)).mp same
  · intro slot output later laterMem output'
    rcases forall₂_mem_right behind laterMem with ⟨id', idMem, node', live', stands'⟩
    rcases stands.written wellFormed live output with ⟨var, listed, rfl, _, _, produced⟩
    rcases stands'.written wellFormed live' output' with ⟨other, _, same, _, _, produced'⟩
    cases (List.idxOf_inj listed).mp same
    rw [produced] at produced'
    cases produced'
    exact distinct.2.1.1 idMem

/-- A slot that a step reads is written by no later step, because producers come first. -/
theorem written_first (respects : graph.Respects orderings order)
    (split : schedule.steps = front ++ step :: rest) {slot : Nat} (input : slot ∈ step.inputs)
    {later : Step α} (laterMem : later ∈ step :: rest) : slot ∉ later.outputs := by
  intro output
  have related := laysOut.steps
  rw [split] at related
  rcases forall₂_split related with ⟨front', id, rest', orderSplit, _, ⟨node, live, stands⟩, behind⟩
  have distinct := respects.distinct
  rw [stands.inputs] at input
  rcases List.mem_map.mp input with ⟨var, varMem, rfl⟩
  have laterNode : ∃ id' ∈ id :: rest', ∃ node', graph.node? id' = some node' ∧
      StandsFor vars later id' node' := by
    rcases List.mem_cons.mp laterMem with rfl | laterMem
    · exact ⟨id, by simp, node, live, stands⟩
    · rcases forall₂_mem_right behind laterMem with ⟨id', idMem, node', live', stands'⟩
      exact ⟨id', by simp [idMem], node', live', stands'⟩
  rcases laterNode with ⟨id', idMem, node', live', stands'⟩
  rcases stands'.written wellFormed live' output with ⟨other, _, same, _, _, produced⟩
  cases (List.idxOf_inj (stands.inputs_listed var varMem)).mp same
  have reads : graph.ReadsFrom id id' :=
    Dataflow.readsFrom_iff.mpr ⟨node, live, var, varMem, produced⟩
  have before := (respects.producers_first id id' reads).mem_front distinct orderSplit
  rw [orderSplit, List.nodup_append] at distinct
  exact distinct.2.2 id' before id' idMem rfl

/-- The schedule of a well-formed graph can be executed. -/
theorem sound (distinct : graph.inputs.Nodup) (respects : graph.Respects orderings order) :
    schedule.Sound where
  roots_known := by
    intro slot source member
    rcases laysOut.mem_roots.mp member with ⟨var, listed, _, rfl⟩
    exact laysOut.slot_lt listed
  steps_known := by
    intro step member slot used
    rcases laysOut.exists_node member with ⟨id, _, node, _, stands⟩
    rcases used with input | output
    · rw [stands.inputs] at input
      rcases List.mem_map.mp input with ⟨var, varMem, rfl⟩
      exact laysOut.slot_lt (stands.inputs_listed var varMem)
    · rw [stands.outputs] at output
      rcases List.mem_map.mp output with ⟨var, varMem, rfl⟩
      exact laysOut.slot_lt (stands.outputs_listed var varMem)
  outputs_known := by
    intro slot member
    rw [laysOut.outputs] at member
    rcases List.mem_map.mp member with ⟨var, varMem, rfl⟩
    exact laysOut.slot_lt (laysOut.outputs_listed var varMem)
  roots_kept _ _ root _ member := laysOut.roots_kept wellFormed root member
  written_once _ _ _ split := laysOut.written_once wellFormed respects split
  written_first _ _ _ split _ input _ later :=
    laysOut.written_first wellFormed respects split input later
  frees := laysOut.frees
  arity := by
    intro step member
    rcases laysOut.exists_node member with ⟨id, _, node, live, stands⟩
    have arity := Op.arity_of_inferTypes (wellFormed.typed id node live)
    rw [stands.inputs, stands.op]
    simpa using arity
  results := by
    intro step member
    rcases laysOut.exists_node member with ⟨id, _, node, live, stands⟩
    have count := Op.length_of_inferTypes (wellFormed.typed id node live)
    rw [stands.outputs, stands.op]
    simpa using count
  arguments := by
    intro index known
    rw [laysOut.arity] at known
    have member := List.getElem_mem known
    refine ⟨_, laysOut.mem_roots.mpr ⟨_, laysOut.inputs_listed _ member, ?_, rfl⟩⟩
    rw [Dataflow.source?, if_pos member, distinct.idxOf_getElem]
  sources := laysOut.sources

end WellFormed

end LaysOut

end Schedule

end ArrayGraph
