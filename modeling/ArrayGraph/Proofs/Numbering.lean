import ArrayGraph.Proofs.Dataflow.Capture
import ArrayGraph.Proofs.Reachability
import ArrayGraph.Proofs.Run.Slots

/-!
# The slots of captured graphs

A schedule of a captured graph gives every variable that an execution handles a slot of its own. The
slots of declared inputs are filled with arguments, what is read has been loaded or computed before,
and a slot is freed once, by the last step that reads it, unless it holds an output.

All of this needs inputs that are declared once. An input that is declared again is moved to another
slot, and its argument stays in the old one.
-/

namespace ArrayGraph

variable {α : Type}

/-- What holds of an item of a list holds of a last one. -/
theorem exists_last {β : Type} {items : List β} {holds : β → Prop} (some : ∃ item ∈ items, holds item) :
    ∃ front item back, items = front ++ item :: back ∧ holds item ∧ ∀ later ∈ back, ¬holds later := by
  induction items with
  | nil => simp at some
  | cons head rest ih =>
    by_cases later : ∃ item ∈ rest, holds item
    · rcases ih later with ⟨front, item, back, rfl, found, last⟩
      exact ⟨head :: front, item, back, rfl, found, last⟩
    · push Not at later
      rcases some with ⟨item, member, found⟩
      rcases List.mem_cons.mp member with rfl | member
      · exact ⟨[], item, rest, rfl, found, later⟩
      · exact absurd found (later item member)

namespace Dataflow

/-- A variable that an execution handles: it is declared, read or computed. -/
def Handles (graph : Dataflow α) (var : VarId) : Prop :=
  var ∈ graph.inputs ∨ graph.IsRead var ∨ ∃ id node, graph.node? id = some node ∧ var ∈ node.outputs

/-- What an execution handles has a value once all nodes have run. -/
theorem Handles.available [Arithmetic α] {graph : Dataflow α} {order : List NodeId} {var : VarId}
    (handles : graph.Handles var) (wellFormed : graph.WellFormed) (closed : graph.Closed)
    (topological : graph.Topological order) : graph.Available order var := by
  rcases handles with input | read | ⟨id, node, live, output⟩
  · exact Or.inl ⟨Or.inl input, by simp [source?, input]⟩
  · exact topological.available_of_read closed read
  · rcases List.mem_iff_getElem?.mp output with ⟨index, listed⟩
    have known := (wellFormed.output_known id node live index var listed).1
    exact Or.inr ⟨id, topological.mem_of_live live, (wellFormed.mem_outputs_iff known live).mp output⟩

theorem lt_of_source?_argument {graph : Dataflow α} {var : VarId} {index : Nat}
    (found : graph.source? var = some (.argument index)) : index < graph.inputs.length := by
  unfold source? at found
  split at found
  · cases found
    exact List.idxOf_lt_length_of_mem ‹_›
  · cases kind : (graph.var var).kind <;> simp [kind, SlotTable.rootSource?] at found

end Dataflow

namespace Schedule

variable {graph : Dataflow α} {schedule : Schedule α} {order front back : List NodeId}
  {vars : List VarId} {done : List (Step α)} {var : VarId} {orderings : Orderings}

/-- A schedule is a graph with its nodes in an order and its variables replaced by slots, a different
one for each of them. The slot of a declared input is filled with an argument that is given for it, and
with nothing else. -/
structure Assigns (schedule : Schedule α) (graph : Dataflow α) (order : List NodeId)
    (slotOf : VarId → Nat) : Prop where
  distinct : ∀ var other, graph.Handles var → graph.Handles other → slotOf var = slotOf other →
    var = other
  known : ∀ var, graph.Handles var → slotOf var < schedule.slotCount
  inputs : ∀ input ∈ graph.inputs, ∃ index : Nat, graph.inputs[index]? = some input ∧
    ∀ source, (slotOf input, source) ∈ schedule.roots ↔ source = .argument index
  steps : List.Forall₂ (fun id step => ∃ node, graph.node? id = some node ∧ step.node = id ∧
    step.op = node.op ∧ step.inputs = node.inputs.map slotOf ∧
      step.outputs = node.outputs.map slotOf) order schedule.steps
  outputs : schedule.outputs = graph.outputs.map slotOf
  arity : schedule.arity = graph.inputs.length

/-- A slot is freed by the last step that reads it, once and by no other step. A slot that is not read
or that holds an output is never freed. -/
structure FreesLast (schedule : Schedule α) : Prop where
  once : ∀ slot ∉ schedule.outputs, (∃ step ∈ schedule.steps, slot ∈ step.inputs) →
    ∃ front step back, schedule.steps = front ++ step :: back ∧ slot ∈ step.inputs ∧
      (∀ later ∈ back, slot ∉ later.inputs) ∧ step.frees.count slot = 1 ∧
        ∀ other ∈ front ++ back, slot ∉ other.frees
  never : ∀ slot, slot ∈ schedule.outputs ∨ (∀ step ∈ schedule.steps, slot ∉ step.inputs) →
    ∀ step ∈ schedule.steps, slot ∉ step.frees

/-- A schedule in which slots are read only after they have been loaded or written, and freed as early
as they can be. -/
structure Ordered (schedule : Schedule α) : Prop where
  inputs : schedule.WritesFirst schedule.steps
  outputs : ∀ slot ∈ schedule.outputs,
    schedule.IsRoot slot ∨ ∃ step ∈ schedule.steps, slot ∈ step.outputs
  frees : schedule.FreesLast

theorem nodup_frees_markFrees {outputs : List Nat} {steps : List (Step α)} {step : Step α}
    (member : step ∈ markFrees outputs steps) : step.frees.Nodup := by
  induction steps with
  | nil => cases member
  | cons head rest ih =>
    rcases List.mem_cons.mp member with rfl | member
    · exact (nodup_eraseDups head.inputs).filter _
    · exact ih member

theorem freesLast_of_ofGraph (laid : ofGraph graph orderings = Except.ok schedule) :
    schedule.FreesLast := by
  rcases Checked.bind_eq_ok_iff.mp laid with ⟨_, _, same⟩
  cases same
  refine ⟨?_, ?_⟩
  · intro slot unused read
    rcases exists_last read with ⟨front, step, back, split, input, last⟩
    have freed : slot ∈ step.frees := (mem_frees_markFrees split).mpr ⟨input, unused, last⟩
    have member : step ∈ front ++ step :: back := by simp
    have distinct := nodup_frees_markFrees (split ▸ member)
    refine ⟨front, step, back, split, input, last, List.count_eq_one_of_mem distinct freed, ?_⟩
    intro other otherMem otherFrees
    rcases List.mem_append.mp otherMem with before | after
    · rcases List.append_of_mem before with ⟨first, second, rfl⟩
      rw [List.append_assoc, List.cons_append] at split
      exact ((mem_frees_markFrees split).mp otherFrees).2.2 step (by simp) input
    · rcases List.append_of_mem after with ⟨first, second, rfl⟩
      rw [← List.cons_append, ← List.append_assoc] at split
      exact last other (by simp) ((mem_frees_markFrees split).mp otherFrees).1
  · intro slot settled step member freed
    rcases List.append_of_mem member with ⟨front, back, split⟩
    rcases (mem_frees_markFrees split).mp freed with ⟨input, unused, _⟩
    rcases settled with output | unread
    · exact unused output
    · exact unread step member input

namespace LaysOut

theorem lt_arity (laysOut : schedule.LaysOut graph order vars) (slot index : Nat)
    (root : (slot, .argument index) ∈ schedule.roots) : index < schedule.arity := by
  rcases laysOut.mem_roots.mp root with ⟨var, _, found, _⟩
  rw [laysOut.arity]
  exact Dataflow.lt_of_source?_argument found

/-- The slots of a schedule are those of the variables that an execution handles. -/
theorem mem_iff_handles (laysOut : schedule.LaysOut graph order vars)
    (topological : graph.Topological order) :
    var ∈ vars ↔ graph.Handles var := by
  refine ⟨laysOut.used var, ?_⟩
  rintro (input | (output | ⟨id, node, live, input⟩) | ⟨id, node, live, output⟩)
  · exact laysOut.inputs_listed var input
  · exact laysOut.outputs_listed var output
  · rcases laysOut.exists_stands topological live with ⟨_, _, stands⟩
    exact stands.inputs_listed var input
  · rcases laysOut.exists_stands topological live with ⟨_, _, stands⟩
    exact stands.outputs_listed var output

theorem assigns (laysOut : schedule.LaysOut graph order vars)
    (topological : graph.Topological order) :
    schedule.Assigns graph order vars.idxOf where
  distinct var other handled _ same :=
    (List.idxOf_inj ((laysOut.mem_iff_handles topological).mpr handled)).mp same
  known var handled := laysOut.slot_lt ((laysOut.mem_iff_handles topological).mpr handled)
  inputs input declared := by
    have listed := laysOut.inputs_listed input declared
    have given : graph.source? input = some (.argument (graph.inputs.idxOf input)) := by
      rw [Dataflow.source?, if_pos declared]
    refine ⟨graph.inputs.idxOf input, List.getElem?_idxOf declared, fun source => ?_⟩
    rw [laysOut.mem_roots]
    constructor
    · rintro ⟨other, _, found, same⟩
      cases (List.idxOf_inj listed).mp same
      exact Option.some.inj (found.symm.trans given)
    · rintro rfl
      exact ⟨input, listed, given, rfl⟩
  steps := laysOut.steps.imp fun _ _ ⟨node, live, stands⟩ =>
    ⟨node, live, stands.named, stands.op, stands.inputs, stands.outputs⟩
  outputs := laysOut.outputs
  arity := laysOut.arity

variable [Arithmetic α]

/-- The slot of a variable that is available has been loaded, or written by a step. -/
theorem written_of_available (laysOut : schedule.LaysOut graph order vars)
    (wellFormed : graph.WellFormed)
    (topological : graph.Topological order)
    (ahead : List.Forall₂ (fun id step => ∃ node, graph.node? id = some node ∧
      StandsFor vars step id node) front done)
    (available : graph.Available front var) :
    schedule.IsRoot (vars.idxOf var) ∨ ∃ step ∈ done, vars.idxOf var ∈ step.outputs := by
  rcases available with ⟨used, supplied⟩ | ⟨id, member, produced⟩
  · rcases Option.ne_none_iff_exists'.mp supplied with ⟨source, found⟩
    have listed : var ∈ vars := (laysOut.mem_iff_handles topological).mpr (used.imp_right Or.inl)
    exact Or.inl ⟨source, laysOut.mem_roots.mpr ⟨var, listed, found, rfl⟩⟩
  · rcases forall₂_mem_right ahead.flip member with ⟨step, stepMem, node, live, stands⟩
    refine Or.inr ⟨step, stepMem, ?_⟩
    rw [stands.outputs]
    exact List.mem_map_of_mem
      ((wellFormed.mem_outputs_iff (Dataflow.known_of_producerId? produced) live).mpr produced)

theorem writesFirst (laysOut : schedule.LaysOut graph order vars) (wellFormed : graph.WellFormed)
    (closed : graph.Closed) (topological : graph.Topological order) :
    schedule.WritesFirst schedule.steps := by
  intro done step rest split slot input
  have related := laysOut.steps
  rw [split] at related
  rcases forall₂_split related with ⟨front, id, back, orderSplit, ahead, ⟨node, live, stands⟩, _⟩
  rw [stands.inputs] at input
  rcases List.mem_map.mp input with ⟨var, varMem, rfl⟩
  exact laysOut.written_of_available wellFormed topological ahead
    (topological.available_input closed orderSplit live varMem)

theorem outputs_written (laysOut : schedule.LaysOut graph order vars)
    (wellFormed : graph.WellFormed) (closed : graph.Closed) (topological : graph.Topological order) :
    ∀ slot ∈ schedule.outputs,
      schedule.IsRoot slot ∨ ∃ step ∈ schedule.steps, slot ∈ step.outputs := by
  intro slot output
  rw [laysOut.outputs] at output
  rcases List.mem_map.mp output with ⟨var, varMem, rfl⟩
  exact laysOut.written_of_available wellFormed topological laysOut.steps
    (topological.available_output closed varMem)

/-- What is read has been loaded or is written by some step. -/
theorem sourced (laysOut : schedule.LaysOut graph order vars) (wellFormed : graph.WellFormed)
    (closed : graph.Closed) (topological : graph.Topological order) (slot : Nat)
    (read : (∃ step ∈ schedule.steps, slot ∈ step.inputs) ∨ slot ∈ schedule.outputs) :
    schedule.IsRoot slot ∨ ∃ step ∈ schedule.steps, slot ∈ step.outputs := by
  rcases read with ⟨step, member, input⟩ | output
  · rcases List.append_of_mem member with ⟨front, back, split⟩
    refine (laysOut.writesFirst wellFormed closed topological front step back split slot
      input).imp_right ?_
    rintro ⟨earlier, earlierMem, written⟩
    exact ⟨earlier, by simp [split, earlierMem], written⟩
  · exact laysOut.outputs_written wellFormed closed topological slot output

end LaysOut

end Schedule

end ArrayGraph
