import ArrayGraph.Proofs.Run.Interpreted
import ArrayGraph.Proofs.Run.Steps

/-!
# What a run may write to

Whatever the steps of a run do, and however they end, they write to new buffers, to buffers that
nobody else holds, and to the buffers of roots that their nodes overwrite. This needs no assumption
on the values that the run is given or on what earlier runs have left in the slots: the buffer of a
variable is that of the root it lives in, or it is one that the run has for itself.
-/

namespace ArrayGraph

variable {α : Type}

namespace Memory

variable {before middle after : Memory α} {touched : BufferId → Prop}

/-- Of what was there, only certain buffers have changed. -/
structure KeepsBut (before : Memory α) (touched : BufferId → Prop) (after : Memory α) : Prop where
  size : before.buffers.size ≤ after.buffers.size
  read : ∀ buffer : BufferId, buffer.index < before.buffers.size → ¬touched buffer →
    after.read buffer = before.read buffer
  containers : after.containers = before.containers

theorem Keeps.but (keeps : before.Keeps after) : before.KeepsBut touched after :=
  ⟨keeps.size, fun buffer known _ => keeps.read buffer known, keeps.containers⟩

theorem KeepsBut.mono {touched' : BufferId → Prop} (keeps : before.KeepsBut touched after)
    (included : ∀ buffer, touched buffer → touched' buffer) : before.KeepsBut touched' after :=
  { keeps with read := fun buffer known outside =>
      keeps.read buffer known fun inside => outside (included buffer inside) }

theorem KeepsBut.trans {touched' : BufferId → Prop} (first : before.KeepsBut touched middle)
    (second : middle.KeepsBut touched' after)
    (included : ∀ buffer : BufferId, buffer.index < before.buffers.size → touched' buffer →
      touched buffer) : before.KeepsBut touched after where
  size := Nat.le_trans first.size second.size
  read buffer known outside := by
    have known' := Nat.lt_of_lt_of_le known first.size
    rw [second.read buffer known' fun inside => outside (included buffer known inside)]
    exact first.read buffer known outside
  containers := second.containers.trans first.containers

theorem keepsBut_write (memory : Memory α) {buffer : BufferId} (data : Array α)
    (allowed : touched buffer) : memory.KeepsBut touched (memory.write buffer data) where
  size := by simp
  read other _ outside := by
    apply memory.read_write_of_ne
    rintro rfl
    exact outside allowed
  containers := rfl

end Memory

/-- A host function gives its results in new buffers and writes nothing. -/
structure HostFunction.Quiet (function : HostFunction α) : Prop where
  ok : ∀ inputs memory outputs after, function.run inputs memory = .ok outputs after →
    memory.Keeps after ∧ ∀ value ∈ outputs, memory.buffers.size ≤ value.buffer.index
  error : ∀ inputs memory failure after, function.run inputs memory = .error failure after →
    memory.Keeps after

namespace Op

variable {op : Op α} {inputs outputs : List Value} {spare : Option Value} {memory after : Memory α}

/-- The host functions of an operation are quiet. -/
def Quiet (op : Op α) : Prop := ∀ function, op = .host function → function.Quiet

/-- Where an operation puts its results: an output that lives in an input has the buffer of that
input, and any other output has a new buffer or the spare one. Nothing else is written to but inputs
that are overwritten, and the spare buffer. -/
structure Places (op : Op α) (inputs : List Value) (spare : Option Value) (memory : Memory α)
    (outputs : List Value) (after : Memory α) : Prop where
  count : outputs.length = op.resultCount
  keeps : memory.KeepsBut (fun buffer =>
    (∃ output input value, (output, input) ∈ op.destroyMap ∧ inputs[input]? = some value ∧
      value.buffer = buffer) ∨ ∃ value ∈ spare, value.buffer = buffer) after
  lodger : ∀ index value input, outputs[index]? = some value →
    (op.viewMap ++ op.destroyMap).lookup index = some input →
      ∃ source, inputs[input]? = some source ∧ source.buffer = value.buffer
  owner : ∀ index value, outputs[index]? = some value →
    (op.viewMap ++ op.destroyMap).lookup index = none →
      memory.buffers.size ≤ value.buffer.index ∨ ∃ other ∈ spare, other.buffer = value.buffer

variable [Arithmetic α]

omit [Arithmetic α] in
theorem places_store (views : op.viewMap = []) (destroys : op.destroyMap = [])
    (single : op.resultCount = 1) (result : Tensor α) :
    op.Places inputs spare memory [⟨result.element, result.shape, (memory.allocate result.data).1⟩]
      (memory.allocate result.data).2 where
  count := by simp [single]
  keeps := (memory.keeps_allocate result.data).but
  lodger index value input _ found := by simp [views, destroys] at found
  owner index value found _ := by
    cases index with
    | zero =>
      cases found
      exact Or.inl (Nat.le_of_eq (memory.allocate_fresh result.data).symm)
    | succ index => cases found

omit [Arithmetic α] in
theorem places_view {input value : Value} {rest : List Value} (views : op.viewMap = [(0, 0)])
    (destroys : op.destroyMap = []) (single : op.resultCount = 1)
    (same : value.buffer = input.buffer) :
    op.Places (input :: rest) spare memory [value] memory where
  count := by simp [single]
  keeps := (Memory.Keeps.refl memory).but
  lodger index other position found located := by
    cases index with
    | zero =>
      cases found
      simp only [views, destroys, List.append_nil, List.lookup_cons, beq_self_eq_true,
        Option.some.injEq] at located
      subst located
      exact ⟨input, rfl, same.symm⟩
    | succ index => cases found
  owner index other found located := by
    cases index with
    | zero => simp [views, destroys] at located
    | succ index => cases found

omit [Arithmetic α] in
/-- A result is written over a value of the same form, or nothing is. -/
theorem writeOver_ends {target : Value} {result : Tensor α} {mismatch : OpError}
    {good : Value → Memory α → Prop}
    (written : good target (memory.write target.buffer result.data)) :
    Ends (writeOver target result mismatch) memory good (memory.Keeps ·) := by
  unfold writeOver
  refine Ends.after rfl ?_
  split
  · exact written
  · exact Memory.Keeps.refl memory

theorem place_ends (table : ∀ function, op ≠ .host function) (arity : inputs.length = op.arity)
    (result : Tensor α) :
    Ends (op.place inputs result) memory
      (fun value after => op.Places inputs spare memory [value] after) (memory.Keeps ·) := by
  cases op with
  | elementwise function target =>
    cases target with
    | none => exact places_store rfl rfl rfl result
    | some position =>
      simp only [place]
      cases found : inputs[position]? with
      | none => exact Memory.Keeps.refl memory
      | some value =>
        apply writeOver_ends
        refine ⟨rfl, memory.keepsBut_write _ (Or.inl ⟨0, position, value, by simp [destroyMap], found,
          rfl⟩), ?_, ?_⟩
        · intro index other input same located
          cases index with
          | zero =>
            cases same
            simp only [viewMap, destroyMap, List.nil_append, List.lookup_cons, beq_self_eq_true,
              Option.some.injEq] at located
            exact ⟨value, located ▸ found, rfl⟩
          | succ index => cases same
        · intro index other same located
          cases index with
          | zero => simp [viewMap, destroyMap] at located
          | succ index => cases same
  | reshape shape =>
    cases inputs with
    | nil => cases arity
    | cons input rest => exact places_view rfl rfl rfl rfl
  | view =>
    cases inputs with
    | nil => cases arity
    | cons input rest => exact places_view rfl rfl rfl rfl
  | host function => exact absurd rfl (table function)
  | _ => exact places_store rfl rfl rfl result

/-- To perform an operation is to place a result or to run a host function. -/
theorem perform_ends_of {good : List Value → Memory α → Prop} {bad : Memory α → Prop}
    (idle : bad memory)
    (table : (∀ function, op ≠ .host function) → inputs.length = op.arity → ∀ result,
      op.compute (inputs.map memory.tensor) = Except.ok result →
        Ends (op.place inputs result) memory (fun value after => good [value] after) bad)
    (host : ∀ function, op = .host function → Ends (function.run inputs) memory
      (fun outputs after => bad after ∧ (outputs.length = op.resultCount → good outputs after)) bad) :
    Ends (op.perform inputs) memory good bad := by
  unfold perform
  split
  · exact idle
  · rename_i arity
    rw [ne_eq, not_not] at arity
    have placed : (∀ function, op ≠ .host function) → Ends (do
        let result ← Action.ofChecked (op.compute (inputs.map (← get).tensor))
        pure [← op.place inputs result]) memory good bad := by
      intro known
      refine Ends.after rfl ?_
      cases computed : op.compute (inputs.map memory.tensor) with
      | error failure => exact idle
      | ok result =>
        exact Ends.after rfl ((table known arity result computed).bind fun value after holds => holds)
    cases op with
    | host function =>
      refine (host function rfl).bind ?_
      rintro outputs after ⟨stopped, complete⟩
      split
      · rename_i count
        exact complete count
      · exact stopped
    | _ => exact placed (by simp)

/-- However an operation ends, it has written where it may. -/
theorem perform_ends (quiet : op.Quiet) : Ends (op.perform inputs) memory
    (fun outputs after => op.Places inputs spare memory outputs after) (memory.Keeps ·) := by
  refine perform_ends_of (Memory.Keeps.refl memory)
    (fun table arity result _ => place_ends table arity result) ?_
  rintro function rfl
  have calm := quiet function rfl
  refine (Ends.intro (calm.ok inputs memory) (calm.error inputs memory)).imp ?_ fun _ keeps => keeps
  rintro outputs after ⟨keeps, fresh⟩
  refine ⟨keeps, fun count => ⟨count, keeps.but, by simp [viewMap, destroyMap], ?_⟩⟩
  exact fun index value found _ => Or.inl (fresh value (List.mem_of_getElem? found))

omit [Arithmetic α] in
/-- A result is put into a new buffer or into the spare one. -/
theorem placeInto_ends (views : op.viewMap = []) (destroys : op.destroyMap = [])
    (single : op.resultCount = 1) (result : Tensor α) : Ends (placeInto spare result) memory
    (fun value after => op.Places inputs spare memory [value] after) (memory.Keeps ·) := by
  unfold placeInto
  cases spare with
  | none => exact places_store views destroys single result
  | some target =>
    dsimp only
    split
    · apply writeOver_ends
      refine ⟨by simp [single], memory.keepsBut_write _ (Or.inr ⟨target, rfl, rfl⟩), ?_, ?_⟩
      · simp [views, destroys]
      · intro index value found _
        cases index with
        | zero =>
          cases found
          exact Or.inr ⟨target, rfl, rfl⟩
        | succ index => cases found
    · exact places_store views destroys single result

/-- Planned, an operation is performed as it stands, or a result is put where it is told to go. -/
theorem performPlanned_ends_of {good : List Value → Memory α → Prop} {bad : Memory α → Prop}
    (idle : bad memory)
    (planned : ∀ function, op = .elementwise function none → ∀ result,
      op.compute (inputs.map memory.tensor) = Except.ok result →
        Ends (placeInto spare result) memory (fun value after => good [value] after) bad)
    (performed : Ends (op.perform inputs) memory good bad) :
    Ends (op.performPlanned inputs spare) memory good bad := by
  unfold performPlanned
  split
  · rename_i function
    refine Ends.after rfl ?_
    cases computed : (Op.elementwise function none : Op α).compute (inputs.map memory.tensor) with
    | error failure => exact idle
    | ok result =>
      exact Ends.after rfl
        ((planned function rfl result computed).bind fun value after holds => holds)
  · exact performed

theorem performPlanned_ends (quiet : op.Quiet) : Ends (op.performPlanned inputs spare) memory
    (fun outputs after => op.Places inputs spare memory outputs after) (memory.Keeps ·) := by
  refine performPlanned_ends_of (Memory.Keeps.refl memory) ?_ (perform_ends quiet)
  rintro function rfl result _
  exact placeInto_ends rfl rfl rfl result

theorem Attempts.places (attempts : op.Attempts inputs spare memory (.ok outputs after))
    (quiet : op.Quiet) : op.Places inputs spare memory outputs after := by
  rcases attempts with ran | ran
  · exact (perform_ends quiet).of_ok ran
  · exact (performPlanned_ends quiet).of_ok ran

theorem Attempts.keeps {failure : Failure OpError}
    (attempts : op.Attempts inputs spare memory (.error failure after)) (quiet : op.Quiet) :
    memory.Keeps after := by
  rcases attempts with ran | ran
  · have ends : Ends (op.perform inputs) memory
        (fun outputs after => op.Places inputs spare memory outputs after) (memory.Keeps ·) :=
      perform_ends quiet
    exact ends.of_error ran
  · exact (performPlanned_ends quiet).of_error ran

end Op

/-- A buffer that a run can have for itself: it is new, or nobody outside holds it. -/
def Memory.Spares (start : Memory α) (heldOutside : BufferId → Bool) (buffer : BufferId) : Prop :=
  heldOutside buffer = false ∨ start.buffers.size ≤ buffer.index

theorem Memory.Spares.ne {memory : Memory α} {heldOutside : BufferId → Bool} {buffer : BufferId}
    {value : Value} (spares : memory.Spares heldOutside buffer)
    (held : memory.Knows value ∧ heldOutside value.buffer = true) : value.buffer ≠ buffer := by
  rintro rfl
  rcases spares with unheld | new
  · rw [held.2] at unheld
    cases unheld
  · exact Nat.not_lt.mpr new held.1

namespace Dataflow

variable {graph : Dataflow α} {heldOutside : BufferId → Bool} {start : Memory α}
  {arguments : List Value} {order front back : List NodeId} {vars : List VarId}
  {schedule : Schedule α} {state : RunState α} {id : NodeId} {node : Node α} {step : Step α}
  {var : VarId}

/-- The buffer of a root that one of some nodes overwrites. -/
def Exposes (graph : Dataflow α) (nodes : List NodeId) (start : Memory α) (arguments : List Value)
    (buffer : BufferId) : Prop :=
  ∃ root value, graph.Supplies root ∧ (∃ id ∈ nodes, graph.Overwrites id root) ∧
    graph.rootValue? start arguments root = some value ∧ value.buffer = buffer

/-- What a run of some nodes has left alone: all but the buffers of roots that they overwrite and those
that the run has for itself. -/
def Framed (graph : Dataflow α) (nodes : List NodeId) (heldOutside : BufferId → Bool)
    (start : Memory α) (arguments : List Value) (memory : Memory α) : Prop :=
  start.KeepsBut (fun buffer => graph.Exposes nodes start arguments buffer ∨
    start.Spares heldOutside buffer) memory

theorem Framed.concat {memory : Memory α} (framed : graph.Framed front heldOutside start arguments memory)
    (id : NodeId) : graph.Framed (front ++ [id]) heldOutside start arguments memory := by
  refine framed.mono fun buffer => Or.imp_left ?_
  rintro ⟨root, value, supplies, ⟨earlier, member, overwrites⟩, given⟩
  exact ⟨root, value, supplies, ⟨earlier, List.mem_append_left _ member, overwrites⟩, given⟩

/-- A variable lives in the buffer of the root that owns its storage, or in a buffer that the run
has for itself. -/
def Lodges (graph : Dataflow α) (heldOutside : BufferId → Bool) (start : Memory α)
    (arguments : List Value) (var : VarId) (buffer : BufferId) : Prop :=
  start.Spares heldOutside buffer ∨ ∃ value, graph.Supplies (graph.aliasRoot var) ∧
    graph.rootValue? start arguments (graph.aliasRoot var) = some value ∧ value.buffer = buffer

/-- A run up to some nodes has kept to the buffers it may write to. -/
structure Lodged (graph : Dataflow α) (heldOutside : BufferId → Bool) (start : Memory α)
    (arguments : List Value) (vars : List VarId) (front : List NodeId) (state : RunState α) :
    Prop where
  framed : graph.Framed front heldOutside start arguments state.memory
  slots : ∀ var value, graph.Available front var →
    state.slots[vars.idxOf var]? = some (some value) →
      graph.Lodges heldOutside start arguments var value.buffer

/-- Inputs of a node that have been read from the slots of variables with values. -/
def Reads (graph : Dataflow α) (vars : List VarId) (front : List NodeId) (node : Node α)
    (slots : Array (Option Value)) (inputs : List Value) : Prop :=
  ∀ (position : Nat) (value : Value), inputs[position]? = some value →
    ∃ input, node.inputs[position]? = some input ∧ graph.Available front input ∧
      slots[vars.idxOf input]? = some (some value)

/-- An operation that writes where it may, on what is lodged as the inputs of a node are, keeps to the
buffers of the run up to this node. -/
theorem Lodged.framed_of_places
    (lodged : graph.Lodged heldOutside start arguments vars front state)
    (live : graph.node? id = some node) {inputs outputs : List Value} {spare : Option Value}
    {after : Memory α} (reads : graph.Reads vars front node state.slots inputs)
    (spared : ∀ value ∈ spare, heldOutside value.buffer = false)
    (places : node.op.Places inputs spare state.memory outputs after) :
    graph.Framed (front ++ [id]) heldOutside start arguments after := by
  refine (lodged.framed.concat id).trans places.keeps ?_
  rintro buffer _ (⟨output, position, value, destroys, found, rfl⟩ | ⟨value, member, rfl⟩)
  · rcases reads position value found with ⟨input, inputFound, available, held⟩
    rcases lodged.slots input value available held with own | ⟨root, supplies, rootFound, same⟩
    · exact Or.inr own
    · refine Or.inl ⟨_, root, supplies, ⟨id, by simp, node, live, input, ?_, rfl⟩, rootFound, same⟩
      exact List.mem_filterMap.mpr ⟨(output, position), destroys, inputFound⟩
  · exact Or.inr (Or.inl (spared value member))

variable [Arithmetic α]

section Step

variable (wellFormed : graph.WellFormed) (safe : graph.Safe order)
  (live : graph.node? id = some node) (stands : Schedule.StandsFor vars step id node)
include safe live stands

omit [Arithmetic α] in
theorem reads_of_offers (closed : graph.Closed) (split : order = front ++ id :: back)
    {middle : RunState α} {inputs : List Value} {spare : Option Value}
    (offers : Run.Offers heldOutside step state inputs spare middle) :
    graph.Reads vars front node state.slots inputs := by
  intro position value found
  rcases forall₂_getElem?_right offers.read found with ⟨slot, slotFound, held⟩
  rw [stands.inputs, List.getElem?_map, Option.map_eq_some_iff] at slotFound
  rcases slotFound with ⟨input, inputFound, rfl⟩
  exact ⟨input, inputFound,
    safe.available_input closed split live (List.mem_of_getElem? inputFound), held⟩

include wellFormed

/-- What has a value once a node has run either lives where something lives that had a value before,
which is still in its slot or is an input of the node, or it is a result in storage of its own. -/
theorem available_cases {middle final : RunState α} {inputs outputs : List Value}
    {spare : Option Value} {after : Memory α} {value : Value}
    (reads : graph.Reads vars front node state.slots inputs)
    (offers : Run.Offers heldOutside step state inputs spare middle)
    (places : node.op.Places inputs spare middle.memory outputs after)
    (filled : Run.Within final.slots (fill middle.slots (step.outputs.zip outputs)))
    (available : graph.Available (front ++ [id]) var)
    (held : final.slots[vars.idxOf var]? = some (some value)) :
    (∃ other source, graph.Available front other ∧ graph.aliasRoot var = graph.aliasRoot other ∧
      state.slots[vars.idxOf other]? = some (some source) ∧ source.buffer = value.buffer ∧
      (source ∈ inputs ∨ middle.slots[vars.idxOf other]? = some (some source))) ∨
    ∃ index : Nat, node.outputs[index]? = some var ∧ outputs[index]? = some value ∧
      (node.op.viewMap ++ node.op.destroyMap).lookup index = none := by
  have held := filled _ _ held
  by_cases output : var ∈ node.outputs
  · rcases List.mem_iff_getElem?.mp output with ⟨index, outputFound⟩
    rcases wellFormed.output_known id node live index var outputFound with ⟨_, kind⟩
    have produced : graph.producer? var = some (id, node, index) :=
      producer?_eq_some.mpr ⟨kind, live⟩
    have inside : index < outputs.length := by
      rw [places.count, ← Op.length_of_inferTypes (wellFormed.typed id node live), List.length_map]
      exact (List.getElem?_eq_some_iff.mp outputFound).1
    have sameValue : outputs[index]? = some value := by
      have known := (Array.getElem?_eq_some_iff.mp held).1
      rw [stands.store_of_getElem? (wellFormed.outputs_nodup live) outputFound
        (List.getElem?_eq_getElem inside) (by simpa using known)] at held
      simpa [List.getElem?_eq_getElem inside] using held
    cases located : (node.op.viewMap ++ node.op.destroyMap).lookup index with
    | none => exact Or.inr ⟨index, outputFound, sameValue, located⟩
    | some position =>
      rcases places.lodger index value position sameValue located with ⟨source, found, same⟩
      rcases reads position source found with ⟨input, inputFound, available, heldSource⟩
      have lives : graph.LivesIn var input :=
        storageSource?_eq_some.mpr ⟨id, node, index, position, produced, located, inputFound⟩
      exact Or.inl ⟨input, source, available, safe.acyclic.aliasRoot_eq lives, heldSource, same,
        Or.inl (List.mem_of_getElem? found)⟩
  · have old := (wellFormed.available_concat live available).resolve_right output
    rw [stands.store_of_notMem output] at held
    exact Or.inl ⟨var, value, old, rfl, offers.narrows.slots _ _ held, rfl, Or.inr held⟩

variable (closed : graph.Closed) (split : order = front ++ id :: back) (quiet : node.op.Quiet)
include closed split quiet

/-- A step that succeeds keeps to the buffers of the run. -/
theorem Lodged.advance {executable : Executable α}
    (lodged : graph.Lodged heldOutside start arguments vars front state) :
    Ends (executable.step heldOutside step) state
      (fun _ final => graph.Lodged heldOutside start arguments vars (front ++ [id]) final)
      fun _ => True := by
  refine Executable.step_ends.imp ?_ fun _ _ => trivial
  rintro _ final ⟨offers, ran, filled⟩
  have reads := reads_of_offers safe live stands closed split offers
  rw [stands.op, offers.narrows.memory] at ran
  have places := ran.places quiet
  refine ⟨lodged.framed_of_places live reads offers.unheld places, ?_⟩
  intro var value available held
  rcases available_cases wellFormed safe live stands reads offers
      (offers.narrows.memory ▸ places) filled available held with
    ⟨other, source, availableOther, sameRoot, heldOther, same, _⟩ | ⟨index, _, found, located⟩
  · rw [Lodges, sameRoot, ← same]
    exact lodged.slots other source availableOther heldOther
  · rcases places.owner index value found located with new | ⟨spared, member, same⟩
    · exact Or.inl (Or.inr (Nat.le_trans lodged.framed.size new))
    · exact Or.inl (Or.inl (same ▸ offers.unheld spared member))

end Step

section Whole

variable (wellFormed : graph.WellFormed) (safe : graph.Safe order)
  (laysOut : schedule.LaysOut graph order vars)

omit safe in
include wellFormed laysOut in
/-- Loading puts the values of roots into their slots. -/
theorem load_ends (topological : graph.Topological order) : Ends (Run.load schedule arguments) state
    (fun _ final => Run.Loads schedule arguments state final ∧
      ∀ var value, graph.Available [] var → final.slots[vars.idxOf var]? = some (some value) →
        graph.aliasRoot var = var ∧ graph.Supplies var ∧
          graph.rootValue? state.memory arguments var = some value)
    (Run.Loads schedule arguments state) := by
  refine (Run.load_ends laysOut.sources).imp ?_ fun _ loads => loads
  rintro _ final ⟨loads, loaded⟩
  refine ⟨loads, ?_⟩
  rintro var value (supplies | ⟨id, member, _⟩) held
  · have listed := Available.listed wellFormed topological laysOut
      (Or.inl supplies : graph.Available [] var)
    have owner : graph.aliasRoot var = var := aliasRoot_of_none
      (storageSource?_eq_none_of_producer? (wellFormed.producer?_of_source? supplies.2))
    rcases Option.ne_none_iff_exists'.mp supplies.2 with ⟨source, found⟩
    have given := loaded _ source (laysOut.mem_roots.mpr ⟨var, listed, found, rfl⟩) value held
    exact ⟨owner, supplies, by simpa [rootValue?, found] using given⟩
  · cases member

include wellFormed safe laysOut in
theorem lodged_of_load (memory : state.memory = start) : Ends (Run.load schedule arguments) state
    (fun _ final => graph.Lodged heldOutside start arguments vars [] final) fun _ => True := by
  refine (load_ends wellFormed laysOut safe.topological).imp ?_ fun _ _ => trivial
  rintro _ final ⟨loads, loaded⟩
  constructor
  · rw [loads.memory, memory]
    exact (Memory.Keeps.refl start).but
  · intro var value available held
    rcases loaded var value available held with ⟨owner, supplies, found⟩
    exact Or.inr ⟨value, owner.symm ▸ supplies, by rw [owner, ← memory, found], rfl⟩

end Whole

end Dataflow

end ArrayGraph
