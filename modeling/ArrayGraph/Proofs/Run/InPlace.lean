import ArrayGraph.Proofs.Perform
import ArrayGraph.Proofs.Run.Currency

/-!
# Running in place is evaluation

The state of a run in place is compared with plain evaluation node by node. Each available variable
has a value, which is a handle, and an array that evaluation gives it. The handle always has the
form of the array, and it has its contents as long as the variable is current. Variables whose
storage has one owner share a buffer, and the buffer of storage that may be overwritten is shared by
no one else. So a node that overwrites its input changes only what is out of date from then on.
-/

namespace ArrayGraph

variable {α : Type}

/-- A function with new values at some variables. -/
def assign {β : Type} (f : VarId → β) (vars : List VarId) (items : List β) (var : VarId) : β :=
  ((vars.zip items).lookup var).getD (f var)

section Assign

variable {β : Type} {f : VarId → β} {vars : List VarId} {items : List β} {var : VarId}

theorem assign_of_notMem (unlisted : var ∉ vars) : assign f vars items var = f var := by
  unfold assign
  induction vars generalizing items with
  | nil => simp
  | cons head rest ih =>
    cases items with
    | nil => simp
    | cons item others =>
      simp only [List.mem_cons, not_or] at unlisted
      rw [List.zip_cons_cons, lookup_cons_ite, if_neg unlisted.1]
      exact ih unlisted.2

theorem assign_of_getElem? (distinct : vars.Nodup) {index : Nat} {item : β}
    (listed : vars[index]? = some var) (found : items[index]? = some item) :
    assign f vars items var = item := by
  unfold assign
  induction vars generalizing items index with
  | nil => simp at listed
  | cons head rest ih =>
    cases items with
    | nil => simp at found
    | cons first others =>
      rw [List.nodup_cons] at distinct
      rw [List.zip_cons_cons, lookup_cons_ite]
      cases index with
      | zero =>
        simp only [List.getElem?_cons_zero, Option.some.injEq] at listed found
        simp [listed, found]
      | succ index =>
        simp only [List.getElem?_cons_succ] at listed found
        rw [if_neg]
        · exact ih distinct.2 listed found
        · rintro rfl
          exact distinct.1 (List.mem_of_getElem? listed)

end Assign

theorem getElem?_singleton {β : Type} {item other : β} {index : Nat}
    (found : [item][index]? = some other) : index = 0 ∧ item = other := by
  cases index with
  | zero => exact ⟨rfl, by simpa using found⟩
  | succ index => simp at found

/-- A value has the form of an array, whatever its contents are. -/
structure Memory.Models (memory : Memory α) (value : Value) (tensor : Tensor α) : Prop where
  known : memory.Knows value
  element : value.element = tensor.element
  shape : value.shape = tensor.shape
  size : (memory.contents value).size = tensor.data.size

theorem Memory.Models.tensor {memory : Memory α} {value : Value} {tensor : Tensor α}
    (models : memory.Models value tensor) (current : memory.contents value = tensor.data) :
    memory.tensor value = tensor := by
  rw [Memory.tensor, models.element, models.shape, current]

/-- A new buffer is not one that a variable was on before. -/
theorem Memory.Models.buffer_ne {memory : Memory α} {content result : Value} {array : Tensor α}
    (models : memory.Models content array) (fresh : memory.buffers.size ≤ result.buffer.index) :
    content.buffer ≠ result.buffer := by
  intro same
  have known := models.known
  rw [Memory.Knows, same] at known
  omega

namespace Dataflow

/-- The value that a root has in a run. -/
def rootValue? (graph : Dataflow α) (memory : Memory α) (arguments : List Value) (var : VarId) :
    Option Value :=
  (graph.source? var).bind (Source.value? memory arguments)

/-- The array that a root stands for in a run. -/
def rootTensor? (graph : Dataflow α) (memory : Memory α) (arguments : List Value) (var : VarId) :
    Option (Tensor α) :=
  (graph.rootValue? memory arguments var).map memory.tensor

/-- The roots of a run have values of their types, and the buffer of each one that a node overwrites is
shared with no other root. In a graph that is valid such a root is not protected. -/
structure Supplied (graph : Dataflow α) (memory : Memory α) (arguments : List Value) : Prop where
  count : arguments.length = graph.inputs.length
  value : ∀ var, graph.Supplies var → ∃ value, graph.rootValue? memory arguments var = some value ∧
    memory.Knows value ∧ (memory.tensor value).Conforms (graph.type var)
  apart : ∀ var other, graph.Supplies var → graph.Supplies other → var ≠ other →
    (∃ id, graph.Overwrites id var) → ∀ value value',
      graph.rootValue? memory arguments var = some value →
        graph.rootValue? memory arguments other = some value' → value.buffer ≠ value'.buffer

variable [Arithmetic α]

/-- What holds of the values of available variables after some nodes have run. -/
structure Tracks (graph : Dataflow α) (hosts : Meaning α) (start : Memory α)
    (arguments : List Value) (front : List NodeId) (value : VarId → Value)
    (tensor : VarId → Tensor α) (memory : Memory α) : Prop where
  root : ∀ var, graph.Supplies var → graph.rootValue? start arguments var = some (value var)
  evaluates : ∀ var, graph.Available front var →
    graph.Evaluates hosts (graph.rootTensor? start arguments) var (tensor var)
  conforms : ∀ var, graph.Available front var → (tensor var).Conforms (graph.type var)
  models : ∀ var, graph.Available front var → memory.Models (value var) (tensor var)
  current : ∀ var, graph.Available front var → graph.Current front var →
    memory.contents (value var) = (tensor var).data
  shared : ∀ var other, graph.Available front var → graph.Available front other →
    graph.aliasRoot var = graph.aliasRoot other → (value var).buffer = (value other).buffer
  apart : ∀ var other, graph.Available front var → graph.Available front other →
    graph.aliasRoot var ≠ graph.aliasRoot other →
      (∃ id, graph.Overwrites id (graph.aliasRoot var)) → (value var).buffer ≠ (value other).buffer
  /-- Storage that a node owns was not there at the start. -/
  new : ∀ var, graph.Available front var → graph.producer? (graph.aliasRoot var) ≠ none →
    start.buffers.size ≤ (value var).buffer.index
  /-- Only the buffers of roots that are overwritten have changed since the start. -/
  frame : ∀ buffer : BufferId, buffer.index < start.buffers.size →
    (∀ var, graph.Supplies var → (∃ id, graph.Overwrites id var) → (value var).buffer ≠ buffer) →
      memory.read buffer = start.read buffer
  grown : start.buffers.size ≤ memory.buffers.size
  containers : memory.containers = start.containers

variable {graph : Dataflow α} {hosts : Meaning α} {start memory after : Memory α}
  {arguments : List Value} {order front back : List NodeId} {value : VarId → Value}
  {tensor : VarId → Tensor α} {id : NodeId} {node : Node α} {outputs : List Value}
  {results : List (Tensor α)}

/-- Where a node has put a result: over storage that was there, or into a new buffer. -/
inductive Placed (graph : Dataflow α) (front : List NodeId) (value : VarId → Value)
    (memory : Memory α) (var : VarId) (result : Value) : Prop
  | lodger (source : VarId) (lives : graph.LivesIn var source)
      (available : graph.Available front source) (same : result.buffer = (value source).buffer)
  | owner (owns : graph.storageSource? var = none)
      (fresh : memory.buffers.size ≤ result.buffer.index)

/-- What one node does to the memory, compared with its evaluation. -/
structure Ran (graph : Dataflow α) (hosts : Meaning α) (front : List NodeId) (value : VarId → Value)
    (tensor : VarId → Tensor α) (memory : Memory α) (id : NodeId) (node : Node α)
    (outputs : List Value) (results : List (Tensor α)) (after : Memory α) : Prop where
  evaluated : node.op.evaluate hosts (node.inputs.map tensor) = Except.ok results
  conform : List.Forall₂ Tensor.Conforms results (node.outputs.map graph.type)
  models : List.Forall₂ after.Models outputs results
  current : ∀ (index : Nat) var, node.outputs[index]? = some var →
    graph.Current (front ++ [id]) var → ∀ result array, outputs[index]? = some result →
      results[index]? = some array → after.contents result = array.data
  placed : ∀ (index : Nat) var result, node.outputs[index]? = some var →
    outputs[index]? = some result → graph.Placed front value memory var result
  distinct : (outputs.map (·.buffer)).Nodup
  known : ∀ var, graph.Available front var → after.Knows (value var)
  size : ∀ var, graph.Available front var →
    (after.contents (value var)).size = (memory.contents (value var)).size
  kept : ∀ var, graph.Available front var → graph.Current (front ++ [id]) var →
    after.contents (value var) = memory.contents (value var)
  changed : ∀ buffer : BufferId, buffer.index < memory.buffers.size →
    after.read buffer ≠ memory.read buffer → ∃ target, graph.Available front target ∧
      (∃ id, graph.Overwrites id (graph.aliasRoot target)) ∧ (value target).buffer = buffer
  grown : memory.buffers.size ≤ after.buffers.size
  containers : after.containers = memory.containers

/-- A variable that is available after a node was available before, or is one of its outputs. -/
theorem Ran.cases (ran : graph.Ran hosts front value tensor memory id node outputs results after)
    (wellFormed : graph.WellFormed) (live : graph.node? id = some node) (var : VarId)
    (available : graph.Available (front ++ [id]) var) :
    (graph.Available front var ∧ assign value node.outputs outputs var = value var ∧
      assign tensor node.outputs results var = tensor var) ∨
    ∃ (index : Nat) (result : Value) (array : Tensor α), node.outputs[index]? = some var ∧
      outputs[index]? = some result ∧ results[index]? = some array ∧
      assign value node.outputs outputs var = result ∧
      assign tensor node.outputs results var = array := by
  by_cases output : var ∈ node.outputs
  · right
    rcases List.mem_iff_getElem?.mp output with ⟨index, found⟩
    have lengths := ran.conform.length_eq
    rw [List.length_map] at lengths
    have known : index < results.length := by
      rw [lengths]
      exact (List.getElem?_eq_some_iff.mp found).1
    rcases forall₂_getElem?_right ran.models (List.getElem?_eq_getElem known) with
      ⟨result, resultFound, _⟩
    have distinct := wellFormed.outputs_nodup live
    exact ⟨index, result, _, found, resultFound, List.getElem?_eq_getElem known,
      assign_of_getElem? distinct found resultFound,
      assign_of_getElem? distinct found (List.getElem?_eq_getElem known)⟩
  · left
    exact ⟨(wellFormed.available_concat live available).resolve_right output,
      assign_of_notMem output, assign_of_notMem output⟩

/-- After a node has run, a variable either shares the buffer of a variable from before whose storage
has the same owner, or owns a new buffer. -/
theorem Ran.anchored (ran : graph.Ran hosts front value tensor memory id node outputs results after)
    (wellFormed : graph.WellFormed) (safe : graph.Safe order) (live : graph.node? id = some node)
    (var : VarId) (available : graph.Available (front ++ [id]) var) :
    (∃ anchor, graph.Available front anchor ∧ graph.aliasRoot var = graph.aliasRoot anchor ∧
      (assign value node.outputs outputs var).buffer = (value anchor).buffer) ∨
    ∃ (index : Nat) (result : Value), node.outputs[index]? = some var ∧
      outputs[index]? = some result ∧ assign value node.outputs outputs var = result ∧
      graph.aliasRoot var = var ∧ memory.buffers.size ≤ result.buffer.index := by
  rcases ran.cases wellFormed live var available with
    ⟨old, same, _⟩ | ⟨index, result, array, output, found, _, same, _⟩
  · exact Or.inl ⟨var, old, rfl, by rw [same]⟩
  · cases ran.placed index var result output found with
    | lodger source lives sourceAvailable sameBuffer =>
      exact Or.inl ⟨source, sourceAvailable, safe.acyclic.aliasRoot_eq lives, by
        rw [same, sameBuffer]⟩
    | owner owns fresh => exact Or.inr ⟨index, result, output, found, same, aliasRoot_of_none owns, fresh⟩

section Extend

variable (tracks : graph.Tracks hosts start arguments front value tensor memory)
  (ran : graph.Ran hosts front value tensor memory id node outputs results after)
  (wellFormed : graph.WellFormed) (closed : graph.Closed) (safe : graph.Safe order)
  (split : order = front ++ id :: back) (live : graph.node? id = some node)

include wellFormed safe split live in
/-- A root keeps its value when a node has run. -/
theorem Supplies.assign_eq {var : VarId} (supplies : graph.Supplies var) :
    assign value node.outputs outputs var = value var := by
  apply assign_of_notMem
  intro output
  exact wellFormed.not_available_of_output (safe.notMem_front split) live output (Or.inl supplies)

include ran in
theorem Ran.index_eq_of_buffer {index index' : Nat} {result result' : Value}
    (found : outputs[index]? = some result) (found' : outputs[index']? = some result')
    (same : result.buffer = result'.buffer) : index = index' := by
  have buffers : (outputs.map (·.buffer))[index]? = (outputs.map (·.buffer))[index']? := by
    simp [found, found', same]
  have known : index < (outputs.map (·.buffer)).length := by
    rw [List.length_map]
    exact (List.getElem?_eq_some_iff.mp found).1
  rwa [List.getElem?_inj known ran.distinct] at buffers

include tracks ran wellFormed closed safe split live

/-- Variables whose storage has one owner share a buffer after a node has run. -/
theorem Tracks.shared_extend (var other : VarId) (available : graph.Available (front ++ [id]) var)
    (available' : graph.Available (front ++ [id]) other)
    (same : graph.aliasRoot var = graph.aliasRoot other) :
    (assign value node.outputs outputs var).buffer =
      (assign value node.outputs outputs other).buffer := by
  -- No variable from before has storage that one of the outputs owns.
  have ownerNew : ∀ (index : Nat) output old, node.outputs[index]? = some output →
      graph.Available front old → graph.aliasRoot old ≠ output := fun index output old found =>
    safe.topological.aliasRoot_ne_of_output wellFormed closed split live (List.mem_of_getElem? found)
  rcases ran.anchored wellFormed safe live var available with
    ⟨anchor, old, root, buffer⟩ | ⟨index, _, output, _, _, root, _⟩
  · rcases ran.anchored wellFormed safe live other available' with
      ⟨anchor', old', root', buffer'⟩ | ⟨index', _, output', _, _, root', _⟩
    · rw [buffer, buffer']
      exact tracks.shared anchor anchor' old old' (root.symm.trans (same.trans root'))
    · exact absurd (root.symm.trans (same.trans root')) (ownerNew index' other anchor output' old)
  · rcases ran.anchored wellFormed safe live other available' with
      ⟨anchor', old', root', _⟩ | ⟨_, _, _, _, _, root', _⟩
    · exact absurd (root'.symm.trans (same.symm.trans root)) (ownerNew index var anchor' output old')
    · rw [root, root'] at same
      rw [same]

omit closed split in
/-- Storage that is overwritten is still shared by no one else. -/
theorem Tracks.apart_extend (var other : VarId) (available : graph.Available (front ++ [id]) var)
    (available' : graph.Available (front ++ [id]) other)
    (different : graph.aliasRoot var ≠ graph.aliasRoot other)
    (overwritten : ∃ id, graph.Overwrites id (graph.aliasRoot var)) :
    (assign value node.outputs outputs var).buffer ≠
      (assign value node.outputs outputs other).buffer := by
  rcases ran.anchored wellFormed safe live var available with
    ⟨anchor, old, root, buffer⟩ | ⟨index, result, output, found, sameValue, _, fresh⟩
  · rw [buffer]
    rcases ran.anchored wellFormed safe live other available' with
      ⟨anchor', old', root', buffer'⟩ | ⟨_, result', _, _, sameValue', _, fresh'⟩
    · rw [buffer']
      exact tracks.apart anchor anchor' old old' (root ▸ root' ▸ different) (root ▸ overwritten)
    · rw [sameValue']
      exact (tracks.models anchor old).buffer_ne fresh'
  · rw [sameValue]
    rcases ran.anchored wellFormed safe live other available' with
      ⟨anchor', old', _, buffer'⟩ | ⟨index', result', output', found', sameValue', _, _⟩
    · rw [buffer']
      exact ((tracks.models anchor' old').buffer_ne fresh).symm
    · rw [sameValue']
      intro same
      cases ran.index_eq_of_buffer found found' same
      cases output.symm.trans output'
      exact different rfl

/-- A buffer from the start that has changed is one of a root that is overwritten. -/
theorem Tracks.frame_extend (buffer : BufferId) (known : buffer.index < start.buffers.size)
    (apart : ∀ var, graph.Supplies var → (∃ id, graph.Overwrites id var) →
      (assign value node.outputs outputs var).buffer ≠ buffer) :
    after.read buffer = start.read buffer := by
  have apart : ∀ var, graph.Supplies var → (∃ id, graph.Overwrites id var) →
      (value var).buffer ≠ buffer := by
    intro var supplies overwritten same
    apply apart var supplies overwritten
    rw [supplies.assign_eq wellFormed safe split live, same]
  have before := tracks.frame buffer known apart
  by_contra changed
  rw [← before] at changed
  rcases ran.changed buffer (Nat.lt_of_lt_of_le known tracks.grown) changed with
    ⟨target, available, overwritten, same⟩
  -- The owner of the storage that was overwritten is a root, or was computed and so is no buffer
  -- from the start.
  have owner := safe.available_aliasRoot wellFormed closed split available
  have sameOwner := tracks.shared target (graph.aliasRoot target) available owner
    (safe.acyclic.aliasRoot_aliasRoot target).symm
  rcases owner with supplies | ⟨other, _, producedBy⟩
  · apply apart (graph.aliasRoot target) supplies overwritten
    rw [← sameOwner, same]
  · have produced : graph.producer? (graph.aliasRoot target) ≠ none := by
      rw [Ne, ← producerId?_eq_none, producedBy]
      simp
    have late := tracks.new target available produced
    rw [same] at late
    omega

/-- A node that does what its evaluation says keeps the state of the run in step with evaluation. -/
theorem Tracks.extend :
    graph.Tracks hosts start arguments (front ++ [id]) (assign value node.outputs outputs)
      (assign tensor node.outputs results) after where
  root := by
    intro var supplies
    rw [supplies.assign_eq wellFormed safe split live]
    exact tracks.root var supplies
  evaluates := by
    intro var available
    rcases ran.cases wellFormed live var available with
      ⟨old, _, same⟩ | ⟨index, _, array, output, _, found, _, same⟩
    · rw [same]
      exact tracks.evaluates var old
    · rw [same]
      have kind := (wellFormed.output_known id node live index var output).2
      refine Evaluates.output tensor
        (producerNode?_eq_some.mpr ⟨id, producer?_eq_some.mpr ⟨kind, live⟩⟩) ?_ ran.evaluated found
      intro input inputMem
      exact tracks.evaluates input (safe.available_input closed split live inputMem)
  conforms := by
    intro var available
    rcases ran.cases wellFormed live var available with
      ⟨old, _, same⟩ | ⟨index, _, array, output, _, found, _, same⟩
    · rw [same]
      exact tracks.conforms var old
    · rw [same]
      rcases forall₂_getElem?_left ran.conform found with ⟨type, typeFound, conforms⟩
      simp only [List.getElem?_map, output, Option.map_some, Option.some.injEq] at typeFound
      exact typeFound ▸ conforms
  models := by
    intro var available
    rcases ran.cases wellFormed live var available with
      ⟨old, sameValue, same⟩ | ⟨index, result, array, output, found, found', sameValue, same⟩
    · rw [sameValue, same]
      have models := tracks.models var old
      exact ⟨ran.known var old, models.element, models.shape, (ran.size var old).trans models.size⟩
    · rw [sameValue, same]
      rcases forall₂_getElem?_left ran.models found with ⟨_, found'', models⟩
      rw [found'] at found''
      cases found''
      exact models
  current := by
    intro var available current
    rcases ran.cases wellFormed live var available with
      ⟨old, sameValue, same⟩ | ⟨index, result, array, output, found, found', sameValue, same⟩
    · rw [sameValue, same, ran.kept var old current]
      exact tracks.current var old current.of_append
    · rw [sameValue, same]
      exact ran.current index var output current result array found found'
  shared := tracks.shared_extend ran wellFormed closed safe split live
  apart := tracks.apart_extend ran wellFormed safe live
  new := by
    intro var available produced
    rcases ran.anchored wellFormed safe live var available with
      ⟨anchor, old, root, buffer⟩ | ⟨_, _, _, _, sameValue, _, fresh⟩
    · rw [buffer]
      rw [root] at produced
      exact tracks.new anchor old produced
    · rw [sameValue]
      exact Nat.le_trans tracks.grown fresh
  frame := tracks.frame_extend ran wellFormed closed safe split live
  grown := Nat.le_trans tracks.grown ran.grown
  containers := ran.containers.trans tracks.containers

end Extend

/-- Performing a node's operation succeeds or fails with its evaluation, and does what `Ran` says. -/
def RunsAs (graph : Dataflow α) (hosts : Meaning α) (front : List NodeId) (value : VarId → Value)
    (tensor : VarId → Tensor α) (memory : Memory α) (id : NodeId) (node : Node α) : Prop :=
  (∀ results, node.op.evaluate hosts (node.inputs.map tensor) = Except.ok results →
    ∃ outputs after, node.op.perform (node.inputs.map value) memory = .ok outputs after ∧
      graph.Ran hosts front value tensor memory id node outputs results after) ∧
  ∀ failure, node.op.evaluate hosts (node.inputs.map tensor) = Except.error failure →
    ∃ after, node.op.perform (node.inputs.map value) memory = .error failure after ∧
      memory.Keeps after

section Step

variable (tracks : graph.Tracks hosts start arguments front value tensor memory)
  (closed : graph.Closed) (safe : graph.Safe order) (split : order = front ++ id :: back)
  (live : graph.node? id = some node)
include tracks closed safe split live

theorem Tracks.conform_inputs :
    List.Forall₂ Tensor.Conforms (node.inputs.map tensor) (node.inputs.map graph.type) := by
  rw [List.forall₂_map_left_iff, List.forall₂_map_right_iff, List.forall₂_same]
  intro var input
  exact tracks.conforms var (safe.available_input closed split live input)

theorem Tracks.known_inputs : ∀ input ∈ node.inputs.map value, memory.Knows input := by
  intro input member
  rcases List.mem_map.mp member with ⟨var, varMem, rfl⟩
  exact (tracks.models var (safe.available_input closed split live varMem)).known

/-- Every node but a view finds in its inputs the arrays that evaluation gives them. -/
theorem Tracks.tensor_inputs (more : ¬node.op.isPureView) :
    (node.inputs.map value).map memory.tensor = node.inputs.map tensor := by
  rw [List.map_map]
  apply List.map_congr_left
  intro var input
  have available := safe.available_input closed split live input
  exact (tracks.models var available).tensor
    (tracks.current var available (safe.current_input split live more input))

/-- A node can be evaluated exactly if its operation can be on the arrays of its inputs. -/
theorem Tracks.nodeEvaluates_iff :
    graph.NodeEvaluates hosts (graph.rootTensor? start arguments) node ↔
      ∃ results, node.op.evaluate hosts (node.inputs.map tensor) = Except.ok results := by
  have evaluates : ∀ input ∈ node.inputs,
      graph.Evaluates hosts (graph.rootTensor? start arguments) input (tensor input) :=
    fun input member => tracks.evaluates input (safe.available_input closed split live member)
  constructor
  · rintro ⟨values, results, operands, evaluated⟩
    have same : ∀ input ∈ node.inputs, values input = tensor input :=
      fun input member => (operands input member).unique (evaluates input member)
    rw [List.map_congr_left same] at evaluated
    exact ⟨results, evaluated⟩
  · rintro ⟨results, evaluated⟩
    exact ⟨tensor, results, evaluates, evaluated⟩

variable (wellFormed : graph.WellFormed)
include wellFormed

theorem Tracks.conform_results (computes : node.op.Computes hosts)
    (evaluated : node.op.evaluate hosts (node.inputs.map tensor) = Except.ok results) :
    List.Forall₂ Tensor.Conforms results (node.outputs.map graph.type) :=
  Op.evaluate_conforms (wellFormed.typed id node live)
    (fun function same => (computes function same).typed)
    (tracks.conform_inputs closed safe split live) evaluated

/-- A node that is no view and overwrites nothing. -/
theorem Tracks.runsAs_separate (computes : node.op.Computes hosts) (views : node.op.viewMap = [])
    (destroys : node.op.destroyMap = []) :
    graph.RunsAs hosts front value tensor memory id node := by
  have more : ¬node.op.isPureView := by simp [Op.isPureView, views]
  have arity := Op.arity_of_inferTypes (wellFormed.typed id node live)
  have performs := Op.perform_separate computes views destroys (by simpa using arity)
    (tracks.known_inputs closed safe split live)
  rw [tracks.tensor_inputs closed safe split live more] at performs
  refine ⟨?_, performs.2⟩
  intro results evaluated
  rcases performs.1 results evaluated with ⟨outputs, after, performed, sameResults, keeps, fresh⟩
  refine ⟨outputs, after, performed, ?_⟩
  exact {
    evaluated := evaluated
    conform := tracks.conform_results closed safe split live wellFormed computes evaluated
    models := by
      rw [← sameResults, List.forall₂_map_right_iff, List.forall₂_same]
      intro output member
      exact ⟨fresh.known output member, rfl, rfl, rfl⟩
    current := by
      intro index var _ _ result array found found'
      rw [← sameResults, List.getElem?_map, found] at found'
      cases found'
      rfl
    placed := by
      intro index var result output found
      refine Placed.owner ?_ (fresh.new result (List.mem_of_getElem? found))
      have kind := (wellFormed.output_known id node live index var output).2
      simp [storageSource?, producer?_eq_some.mpr ⟨kind, live⟩, views, destroys]
    distinct := fresh.distinct
    known := fun var available => keeps.knows (tracks.models var available).known
    size := fun var available => by
      simp only [Memory.contents, keeps.read _ (tracks.models var available).known]
    kept := fun var available _ => keeps.read _ (tracks.models var available).known
    changed := fun buffer known different => absurd (keeps.read buffer known) different
    grown := keeps.size
    containers := keeps.containers }

/-- The input that a node overwrites has the form of the result. -/
theorem Tracks.target_like {function : ScalarFunction} {position : Nat}
    (op : node.op = .elementwise function (some position)) :
    ∃ target, node.inputs[position]? = some target ∧ ∀ name result,
      function.compute name (node.inputs.map tensor) = Except.ok result →
        (value target).element = result.element ∧ (value target).shape = result.shape ∧
          (memory.contents (value target)).size = result.data.size := by
  have typed := wellFormed.typed id node live
  rw [op] at typed
  rcases Op.inferTypes_elementwise typed with ⟨_, output, inferred, _, targetType⟩
  have targetType := targetType position rfl
  rw [List.getElem?_map, Option.map_eq_some_iff] at targetType
  rcases targetType with ⟨target, targetFound, sameType⟩
  refine ⟨target, targetFound, fun name result computed => ?_⟩
  have typeFound : (node.inputs.map graph.type)[position]? = some output := by
    simp [targetFound, sameType]
  have tensorFound : (node.inputs.map tensor)[position]? = some (tensor target) := by
    simp [targetFound]
  rcases ScalarFunction.compute_like_operand inferred (tracks.conform_inputs closed safe split live)
    computed typeFound tensorFound with ⟨element, shape, size⟩
  have models := tracks.models target
    (safe.available_input closed split live (List.mem_of_getElem? targetFound))
  exact ⟨models.element.trans element, models.shape.trans shape, models.size.trans size⟩

/-- A node that overwrites one of its inputs. -/
theorem Tracks.runsAs_overwrite {function : ScalarFunction} {position : Nat}
    (op : node.op = .elementwise function (some position)) :
    graph.RunsAs hosts front value tensor memory id node := by
  have more : ¬node.op.isPureView := by simp [Op.isPureView, op, Op.viewMap]
  have arity := Op.arity_of_inferTypes (wellFormed.typed id node live)
  rcases tracks.target_like closed safe split live wellFormed op with ⟨target, targetFound, alike⟩
  have operands := tracks.tensor_inputs closed safe split live more
  have available := safe.available_input closed split live (List.mem_of_getElem? targetFound)
  have models := tracks.models target available
  have valueFound : (node.inputs.map value)[position]? = some (value target) := by simp [targetFound]
  rw [← operands] at alike
  have performs := Op.perform_overwrite hosts (by simpa [op, Op.arity] using arity) valueFound alike
  rw [← op, operands] at performs
  refine ⟨?_, fun failure evaluated => ⟨memory, performs.2 failure evaluated, Memory.Keeps.refl _⟩⟩
  intro results evaluated
  rcases performs.1 results evaluated with ⟨result, rfl, performed, element, shape, size⟩
  refine ⟨_, _, performed, ?_⟩
  have overwrites : graph.Overwrites id (graph.aliasRoot target) := by
    refine ⟨node, live, target, ?_, rfl⟩
    simp [overwritten, op, Op.destroyMap, targetFound]
  have readTarget := memory.read_write_self result.data models.known
  have readOther := fun other (different : other ≠ (value target).buffer) =>
    memory.read_write_of_ne result.data different
  exact {
    evaluated := evaluated
    conform := tracks.conform_results closed safe split live wellFormed
      (fun host same => by rw [op] at same; cases same) evaluated
    models := by
      refine List.Forall₂.cons ⟨?_, element, shape, ?_⟩ List.Forall₂.nil
      · simpa [Memory.Knows] using models.known
      · rw [Memory.contents, readTarget]
    current := by
      intro index var _ _ written array found found'
      rcases getElem?_singleton found with ⟨rfl, rfl⟩
      rcases getElem?_singleton found' with ⟨_, rfl⟩
      exact readTarget
    placed := by
      intro index var written outputFound found
      rcases getElem?_singleton found with ⟨rfl, rfl⟩
      refine Placed.lodger target ?_ available rfl
      have kind := (wellFormed.output_known id node live 0 var outputFound).2
      refine storageSource?_eq_some.mpr ⟨id, node, 0, position,
        producer?_eq_some.mpr ⟨kind, live⟩, ?_, targetFound⟩
      simp [op, Op.viewMap, Op.destroyMap]
    distinct := by simp
    known := by
      intro var old
      simpa [Memory.Knows] using (tracks.models var old).known
    size := by
      intro var old
      by_cases same : (value var).buffer = (value target).buffer
      · rw [Memory.contents, same, readTarget, ← size, Memory.contents, Memory.contents, same]
      · rw [Memory.contents, readOther _ same, Memory.contents]
    kept := by
      -- Whatever is on the buffer that was written is out of date.
      intro var old current
      by_cases same : (value var).buffer = (value target).buffer
      · have sameRoot : graph.aliasRoot target = graph.aliasRoot var := by
          by_contra different
          exact tracks.apart target var available old different ⟨id, overwrites⟩ same.symm
        exact absurd current
          (safe.not_current_of_overwrites wellFormed split old (sameRoot ▸ overwrites))
      · exact readOther _ same
    changed := by
      intro buffer _ different
      refine ⟨target, available, ⟨id, overwrites⟩, ?_⟩
      by_contra apart
      exact different (readOther buffer fun same => apart same.symm)
    grown := by simp
    containers := rfl }

/-- A view. -/
theorem Tracks.runsAs_view (pure : node.op.isPureView) :
    graph.RunsAs hosts front value tensor memory id node := by
  have shape : node.op.arity = 1 ∧ node.op.viewMap = [(0, 0)] ∧
      ∀ host, node.op ≠ .host host := by
    cases op : node.op <;> simp [op, Op.isPureView, Op.viewMap, Op.arity] at pure ⊢
  have arity := Op.arity_of_inferTypes (wellFormed.typed id node live)
  rw [List.length_map, shape.1] at arity
  rcases List.length_eq_one_iff.mp arity with ⟨source, inputs⟩
  have available := safe.available_input closed split live
    (show source ∈ node.inputs by simp [inputs])
  have models := tracks.models source available
  have performs := Op.perform_view hosts pure models.element.symm models.shape.symm models.size.symm
  unfold RunsAs
  simp only [inputs, List.map_singleton]
  refine ⟨?_, fun failure evaluated => ⟨memory, performs.2 failure evaluated, Memory.Keeps.refl _⟩⟩
  intro results evaluated
  rcases performs.1 results evaluated with ⟨target, rfl, performed⟩
  have evaluatedInputs := evaluated
  rw [← List.map_singleton, ← inputs] at evaluatedInputs
  have lives : ∀ var, node.outputs[0]? = some var → graph.LivesIn var source := by
    intro var output
    have kind := (wellFormed.output_known id node live 0 var output).2
    refine storageSource?_eq_some.mpr ⟨id, node, 0, 0, producer?_eq_some.mpr ⟨kind, live⟩, ?_, ?_⟩
    · simp [shape.2.1]
    · simp [inputs]
  refine ⟨_, _, performed, ?_⟩
  exact {
    evaluated := evaluatedInputs
    conform := tracks.conform_results closed safe split live wellFormed
      (fun host same => absurd same (shape.2.2 host)) evaluatedInputs
    models := List.Forall₂.cons ⟨models.known, models.element, rfl, models.size⟩ List.Forall₂.nil
    current := by
      intro index var output current result array found found'
      rcases getElem?_singleton found with ⟨rfl, rfl⟩
      rcases getElem?_singleton found' with ⟨_, rfl⟩
      have kind := (wellFormed.output_known id node live 0 var output).2
      have produced := producerId?_eq_some.mpr ⟨node, 0, producer?_eq_some.mpr ⟨kind, live⟩⟩
      exact tracks.current source available
        (safe.current_of_view split live inputs produced (lives var output) current)
    placed := by
      intro index var result output found
      rcases getElem?_singleton found with ⟨rfl, rfl⟩
      exact Placed.lodger source (lives var output) available rfl
    distinct := by simp
    known := fun var old => (tracks.models var old).known
    size := fun _ _ => rfl
    kept := fun _ _ _ => rfl
    changed := fun _ _ different => absurd rfl different
    grown := Nat.le_refl _
    containers := rfl }

/-- Every node runs as it evaluates. -/
theorem Tracks.runsAs (computes : node.op.Computes hosts) :
    graph.RunsAs hosts front value tensor memory id node := by
  by_cases pure : node.op.isPureView
  · exact tracks.runsAs_view closed safe split live wellFormed pure
  · cases op : node.op with
    | elementwise function target =>
      cases target with
      | some position => exact tracks.runsAs_overwrite closed safe split live wellFormed op
      | none =>
        exact tracks.runsAs_separate closed safe split live wellFormed computes (by simp [op, Op.viewMap])
          (by simp [op, Op.destroyMap])
    | reshape shape => simp [op, Op.isPureView, Op.viewMap, Op.isDestructive, Op.destroyMap] at pure
    | view => simp [op, Op.isPureView, Op.viewMap, Op.isDestructive, Op.destroyMap] at pure
    | _ =>
      exact tracks.runsAs_separate closed safe split live wellFormed computes (by simp [op, Op.viewMap])
        (by simp [op, Op.destroyMap])

end Step

end Dataflow

end ArrayGraph
