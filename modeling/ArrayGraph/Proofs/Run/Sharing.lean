import ArrayGraph.Proofs.Run.Frame
import ArrayGraph.Proofs.Run.Validated
import ArrayGraph.Reuse

/-!
# What shares a buffer in a run

Two variables come to share a buffer in a run only if one owner has the storage of both, or if both
live in roots, for which whoever starts the run may have given one buffer twice. A result with
storage of its own is put into a new buffer or into the spare one, and the spare buffer is in no slot
and among no inputs when it is offered, so that no variable which still has a value is on it.
-/

namespace ArrayGraph

variable {α : Type}

/-- A host function gives its results in new buffers, a different one for each of them, and writes
nothing. -/
structure HostFunction.Fresh (function : HostFunction α) : Prop where
  ok : ∀ inputs memory outputs after, function.run inputs memory = .ok outputs after →
    memory.Keeps after ∧ memory.Fresh after outputs
  error : ∀ inputs memory failure after, function.run inputs memory = .error failure after →
    memory.Keeps after

/-- Slots hold handles on buffers that exist. -/
def Memory.KnowsSlots (memory : Memory α) (slots : Array (Option Value)) : Prop :=
  ∀ (slot : Nat) (value : Value), slots[slot]? = some (some value) → memory.Knows value

theorem Memory.KnowsSlots.within {before after : Memory α} {slots others : Array (Option Value)}
    (knows : before.KnowsSlots others) (within : Run.Within slots others)
    (size : before.buffers.size ≤ after.buffers.size) : after.KnowsSlots slots :=
  fun slot value held => Nat.lt_of_lt_of_le (knows slot value (within slot value held)) size

namespace Op

variable {op : Op α} {inputs outputs : List Value} {spare : Option Value} {memory after : Memory α}

def Fresh (op : Op α) : Prop := ∀ function, op = .host function → function.Fresh

theorem Fresh.quiet (fresh : op.Fresh) : op.Quiet := fun function same =>
  ⟨fun inputs memory outputs after ran =>
    ((fresh function same).ok inputs memory outputs after ran).imp_right fun fresh => fresh.new,
    (fresh function same).error⟩

/-- Results are on buffers that exist, and no two of them share one. -/
def Settles (outputs : List Value) (after : Memory α) : Prop :=
  (∀ value ∈ outputs, after.Knows value) ∧ (outputs.map (·.buffer)).Nodup

/-- In a list of values on different buffers, a buffer is found at one position. -/
theorem index_eq_of_buffer {index other : Nat} {value value' : Value}
    (distinct : (outputs.map (·.buffer)).Nodup) (found : outputs[index]? = some value)
    (found' : outputs[other]? = some value') (same : value.buffer = value'.buffer) :
    index = other := by
  have first : (outputs.map (·.buffer))[index]? = some value.buffer := by simp [found]
  have second : (outputs.map (·.buffer))[other]? = some value.buffer := by simp [found', same]
  exact (List.getElem?_inj (List.getElem?_eq_some_iff.mp first).1 distinct).mp
    (first.trans second.symm)

theorem settles_singleton {value : Value} (known : after.Knows value) : Settles [value] after :=
  ⟨by simpa using known, by simp⟩

theorem settles_store (result : Tensor α) :
    Settles [⟨result.element, result.shape, (memory.allocate result.data).1⟩]
      (memory.allocate result.data).2 :=
  settles_singleton (by simp [Memory.Knows, Memory.allocate_fresh])

theorem writeOver_settles {target : Value} {result : Tensor α} {mismatch : OpError}
    (known : memory.Knows target) : Ends (writeOver target result mismatch) memory
    (fun value after => Settles [value] after) fun _ => True := by
  have written : Ends (writeOver target result mismatch) memory
      (fun value after => Settles [value] after) (memory.Keeps ·) :=
    writeOver_ends (settles_singleton (by simpa [Memory.Knows] using known))
  exact written.imp (fun _ _ settles => settles) fun _ _ => trivial

variable [Arithmetic α]

theorem place_settles (known : ∀ value ∈ inputs, memory.Knows value) (result : Tensor α) :
    Ends (op.place inputs result) memory (fun value after => Settles [value] after)
      fun _ => True := by
  cases op with
  | elementwise function target =>
    cases target with
    | none => exact settles_store result
    | some position =>
      simp only [place]
      cases found : inputs[position]? with
      | none => trivial
      | some value => exact writeOver_settles (known value (List.mem_of_getElem? found))
  | reshape shape =>
    cases inputs with
    | nil => exact settles_store result
    | cons input rest => exact settles_singleton (known input List.mem_cons_self)
  | view =>
    cases inputs with
    | nil => exact settles_store result
    | cons input rest => exact settles_singleton (known input List.mem_cons_self)
  | _ => exact settles_store result

theorem perform_settles (fresh : op.Fresh) (known : ∀ value ∈ inputs, memory.Knows value) :
    Ends (op.perform inputs) memory Settles fun _ => True := by
  refine perform_ends_of trivial (fun _ _ result _ => place_settles known result) ?_
  rintro function rfl
  refine (Ends.intro ((fresh function rfl).ok inputs memory) fun _ _ _ => trivial).imp ?_
    fun _ _ => trivial
  exact fun outputs after ran => ⟨trivial, fun _ => ⟨ran.2.known, ran.2.distinct⟩⟩

theorem Attempts.settles (attempts : op.Attempts inputs spare memory (.ok outputs after))
    (fresh : op.Fresh) (known : ∀ value ∈ inputs, memory.Knows value)
    (spared : ∀ value ∈ spare, memory.Knows value) : Settles outputs after := by
  rcases attempts with ran | ran
  · exact (perform_settles fresh known).of_ok ran
  · refine (performPlanned_ends_of trivial ?_ (perform_settles fresh known)).of_ok ran
    intro _ _ result _
    unfold placeInto
    cases spare with
    | none => exact settles_store result
    | some target =>
      dsimp only
      split
      · exact writeOver_settles (spared target rfl)
      · exact settles_store result

end Op

namespace Dataflow

variable [Arithmetic α] {graph : Dataflow α} {heldOutside : BufferId → Bool} {start : Memory α}
  {arguments : List Value} {order front back : List NodeId} {vars : List VarId}
  {schedule : Schedule α} {state : RunState α} {id : NodeId} {node : Node α} {step : Step α}
  {var : VarId}

/-- In a run up to some nodes, what lives in a root is on the buffer of the root, and variables that
share a buffer have one owner or live in roots. -/
structure Parted (graph : Dataflow α) (start : Memory α) (arguments : List Value)
    (vars : List VarId) (front : List NodeId) (state : RunState α) : Prop where
  known : state.memory.KnowsSlots state.slots
  rooted : ∀ var value, graph.Available front var →
    state.slots[vars.idxOf var]? = some (some value) → graph.Supplies (graph.aliasRoot var) →
      ∃ source, graph.rootValue? start arguments (graph.aliasRoot var) = some source ∧
        source.buffer = value.buffer
  apart : ∀ var other value value', graph.Available front var → graph.Available front other →
    state.slots[vars.idxOf var]? = some (some value) →
      state.slots[vars.idxOf other]? = some (some value') → value.buffer = value'.buffer →
        graph.aliasRoot var = graph.aliasRoot other ∨
          graph.Supplies (graph.aliasRoot var) ∧ graph.Supplies (graph.aliasRoot other)

section Offer

variable {inputs outputs : List Value} {spare : Option Value} {middle : RunState α} {after : Memory α}
  (offers : Run.Offers heldOutside step state inputs spare middle)
  (known : state.memory.KnowsSlots state.slots)
include offers known

omit [Arithmetic α] in
/-- What a step works on, the inputs and what it is offered, comes from slots. -/
theorem knows_of_offers :
    (∀ value ∈ inputs, middle.memory.Knows value) ∧ ∀ value ∈ spare, middle.memory.Knows value := by
  rw [offers.narrows.memory]
  constructor
  · intro value member
    rcases forall₂_mem_right offers.read member with ⟨slot, _, held⟩
    exact known slot value held
  · intro value member
    rcases offers.origin value member with ⟨slot, _, held⟩
    exact known slot value held

omit [Arithmetic α] in
/-- A result in storage of its own is on no buffer that something with a value is on. -/
theorem ne_buffer_of_places {op : Op α} {index : Nat} {value : Value}
    (places : op.Places inputs spare middle.memory outputs after)
    (found : outputs[index]? = some value)
    (located : (op.viewMap ++ op.destroyMap).lookup index = none) {slot : Nat} {source : Value}
    (held : state.slots[slot]? = some (some source))
    (kept : source ∈ inputs ∨ middle.slots[slot]? = some (some source)) :
    source.buffer ≠ value.buffer := by
  intro same
  rcases places.owner index value found located with new | ⟨spared, member, sameSpare⟩
  · have inside : source.buffer.index < middle.memory.buffers.size :=
      offers.narrows.memory ▸ known slot source held
    rw [same] at inside
    omega
  · rcases kept with input | inSlot
    · exact offers.unread spared member source input (same.trans sameSpare.symm)
    · exact offers.unslotted spared member slot source inSlot (same.trans sameSpare.symm)

end Offer

section Step

variable (wellFormed : graph.WellFormed) (live : graph.node? id = some node)
include wellFormed live

/-- An output that lives in none of the inputs of its node owns its storage, and it is no root. -/
theorem owner_of_lookup {index : Nat} (output : node.outputs[index]? = some var)
    (located : (node.op.viewMap ++ node.op.destroyMap).lookup index = none) :
    graph.aliasRoot var = var ∧ ¬graph.Supplies var := by
  rcases wellFormed.output_known id node live index var output with ⟨_, kind⟩
  have produced : graph.producer? var = some (id, node, index) :=
    producer?_eq_some.mpr ⟨kind, live⟩
  refine ⟨aliasRoot_of_none (by simp [storageSource?, produced, located]), fun supplies => ?_⟩
  rw [wellFormed.producer?_of_source? supplies.2] at produced
  cases produced

variable (safe : graph.Safe order) (stands : Schedule.StandsFor vars step id node)
  (closed : graph.Closed) (split : order = front ++ id :: back) (fresh : node.op.Fresh)
include safe stands closed split fresh

theorem Parted.move {final : RunState α} (parted : graph.Parted start arguments vars front state)
    (moves : Run.Moves heldOutside step state final) :
    graph.Parted start arguments vars (front ++ [id]) final := by
  rcases moves with @⟨inputs, outputs, spare, middle, offers, ran, filled⟩
  rw [stands.op] at ran
  rcases knows_of_offers offers parted.known with ⟨knownInputs, knownSpare⟩
  have places := ran.places fresh.quiet
  have settles := ran.settles fresh knownInputs knownSpare
  have cases := fun var value (available : graph.Available (front ++ [id]) var)
      (held : final.slots[vars.idxOf var]? = some (some value)) =>
    available_cases wellFormed safe live stands (reads_of_offers safe live stands closed split offers)
      offers places filled available held
  refine ⟨?_, ?_, ?_⟩
  · intro slot value held
    rcases getElem?_fill_cases (filled slot value held) with member | ⟨_, earlier⟩
    · exact settles.1 value (List.of_mem_zip member).2
    · have known : middle.memory.Knows value :=
        offers.narrows.memory ▸ parted.known slot value (offers.narrows.slots slot value earlier)
      exact Nat.lt_of_lt_of_le known places.keeps.size
  · intro var value available held supplies
    rcases cases var value available held with
      ⟨other, source, availableOther, sameRoot, heldOther, same, _⟩ | ⟨index, output, _, located⟩
    · rw [sameRoot] at supplies ⊢
      rcases parted.rooted other source availableOther heldOther supplies with
        ⟨root, found, sameBuffer⟩
      exact ⟨root, found, sameBuffer.trans same⟩
    · rcases owner_of_lookup wellFormed live output located with ⟨owner, unsupplied⟩
      exact absurd (owner ▸ supplies) unsupplied
  · intro var other value value' available available' held held' same
    rcases cases var value available held with
      ⟨old, source, availableOld, sameRoot, heldOld, sameOld, kept⟩ | ⟨index, output, found, located⟩
    · rcases cases other value' available' held' with
        ⟨old', source', availableOld', sameRoot', heldOld', sameOld', _⟩ |
          ⟨index, _, found, located⟩
      · rw [sameRoot, sameRoot']
        exact parted.apart old old' source source' availableOld availableOld' heldOld heldOld'
          (sameOld.trans (same.trans sameOld'.symm))
      · exact absurd (sameOld.trans same)
          (ne_buffer_of_places offers parted.known places found located heldOld kept)
    · rcases cases other value' available' held' with
        ⟨old', source', _, _, heldOld', sameOld', kept'⟩ | ⟨index', output', found', located'⟩
      · exact absurd (sameOld'.trans same.symm)
          (ne_buffer_of_places offers parted.known places found located heldOld' kept')
      · cases Op.index_eq_of_buffer settles.2 found found' same
        cases output.symm.trans output'
        exact Or.inl rfl

end Step

section Whole

variable (wellFormed : graph.WellFormed) (safe : graph.Safe order)
include safe

include wellFormed in
theorem parted_of_load (laysOut : schedule.LaysOut graph order vars)
    (known : state.memory.KnowsSlots state.slots)
    (sources : ∀ slot source value, (slot, source) ∈ schedule.roots →
      source.value? state.memory arguments = some value → state.memory.Knows value) :
    Ends (Run.load schedule arguments) state
      (fun _ final => graph.Parted state.memory arguments vars [] final)
      (fun final => final.memory.KnowsSlots final.slots) := by
  have knows : ∀ {final}, Run.Loads schedule arguments state final →
      final.memory.KnowsSlots final.slots := by
    intro final loads slot value held
    rw [loads.memory]
    rcases loads.origin slot value held with before | ⟨source, listed, given⟩
    · exact known slot value before
    · exact sources slot source value listed given
  refine (load_ends wellFormed laysOut safe.topological).imp ?_ fun _ => knows
  rintro _ final ⟨loads, loaded⟩
  refine ⟨knows loads, ?_, ?_⟩
  · intro var value available held _
    rcases loaded var value available held with ⟨owner, _, found⟩
    exact ⟨value, by rw [owner, found], rfl⟩
  · intro var other value value' available available' held held' _
    rcases loaded var value available held with ⟨owner, supplies, _⟩
    rcases loaded other value' available' held' with ⟨owner', supplies', _⟩
    exact Or.inr ⟨owner.symm ▸ supplies, owner'.symm ▸ supplies'⟩

/-- What a run hands out: an output that lives in a root is on its buffer, and any other output is on
a buffer that the run has for itself. Outputs share a buffer only if they have one owner or both live
in roots. -/
structure HandsOut (graph : Dataflow α) (heldOutside : BufferId → Bool) (start : Memory α)
    (arguments values : List Value) (after : Memory α) : Prop where
  length : values.length = graph.outputs.length
  known : ∀ value ∈ values, after.Knows value
  rooted : ∀ (index : Nat) root value, graph.outputRoot? index = some root →
    values[index]? = some value → graph.Supplies root → ∃ source,
      graph.rootValue? start arguments root = some source ∧ source.buffer = value.buffer
  owned : ∀ (index : Nat) root value, graph.outputRoot? index = some root →
    values[index]? = some value → ¬graph.Supplies root → start.Spares heldOutside value.buffer
  apart : ∀ (index other : Nat) root root' value value', graph.outputRoot? index = some root →
    graph.outputRoot? other = some root' → values[index]? = some value →
      values[other]? = some value' → value.buffer = value'.buffer →
        root = root' ∨ graph.Supplies root ∧ graph.Supplies root'

omit [Arithmetic α] safe in
theorem HandsOut.exists_root {values : List Value} {after : Memory α}
    (handsOut : graph.HandsOut heldOutside start arguments values after) {index : Nat} {value : Value}
    (given : values[index]? = some value) : ∃ root, graph.outputRoot? index = some root := by
  have inside := (List.getElem?_eq_some_iff.mp given).1
  rw [handsOut.length] at inside
  exact ⟨_, Option.map_eq_some_iff.mpr ⟨_, List.getElem?_eq_getElem inside, rfl⟩⟩

omit [Arithmetic α] in
theorem Parted.handsOut {values : List Value} {final : RunState α} (closed : graph.Closed)
    (parted : graph.Parted start arguments vars order final)
    (lodged : graph.Lodged heldOutside start arguments vars order final)
    (read : List.Forall₂ (fun var value => final.slots[vars.idxOf var]? = some (some value))
      graph.outputs values) :
    graph.HandsOut heldOutside start arguments values final.memory := by
  have held : ∀ {index : Nat} {root value}, graph.outputRoot? index = some root →
      values[index]? = some value → ∃ var, graph.Available order var ∧
        graph.aliasRoot var = root ∧ final.slots[vars.idxOf var]? = some (some value) := by
    intro index root value found given
    rcases Option.map_eq_some_iff.mp found with ⟨var, listed, same⟩
    rcases forall₂_getElem?_left read listed with ⟨_, given', held⟩
    cases given.symm.trans given'
    exact ⟨var, safe.available_output closed (List.mem_of_getElem? listed), same, held⟩
  refine ⟨read.length_eq.symm, ?_, ?_, ?_, ?_⟩
  · intro value member
    rcases forall₂_mem_right read member with ⟨var, _, heldValue⟩
    exact parted.known _ value heldValue
  · intro index root value found given supplies
    rcases held found given with ⟨var, available, rfl, heldValue⟩
    exact parted.rooted var value available heldValue supplies
  · intro index root value found given unsupplied
    rcases held found given with ⟨var, available, rfl, heldValue⟩
    rcases lodged.slots var value available heldValue with own | ⟨_, supplies, _⟩
    · exact own
    · exact absurd supplies unsupplied
  · intro index other root root' value value' found found' given given' same
    rcases held found given with ⟨var, available, rfl, heldValue⟩
    rcases held found' given' with ⟨var', available', rfl, heldValue'⟩
    exact parted.apart var var' value value' available available' heldValue heldValue' same

include wellFormed

/-- However a run ends, it leaves handles on existing buffers in the slots, and if it succeeds it
hands out what it may. -/
theorem handsOut_of_ran {executable : Executable α} (closed : graph.Closed)
    (laysOut : executable.schedule.LaysOut graph order vars)
    (fresh : ∀ id node, graph.node? id = some node → node.op.Fresh)
    (trusts : executable.Trusts heldOutside arguments start)
    (known : start.KnowsSlots executable.slots) {result : Checked RunError (List Value)}
    {left : Array (Option Value)} {after : Memory α}
    (ran : executable.Ran heldOutside arguments start result left after)
    (size : start.buffers.size ≤ after.buffers.size) :
    after.KnowsSlots left ∧ ∀ values, result = Except.ok values →
      graph.HandsOut heldOutside start arguments values after := by
  have load : ∀ {slots}, Run.Within slots executable.slots →
      Ends (Run.load executable.schedule arguments) ⟨start, slots, [], []⟩
        (fun _ final => graph.Lodged heldOutside start arguments vars [] final ∧
          graph.Parted start arguments vars [] final)
        (fun final => True ∧ final.memory.KnowsSlots final.slots) :=
    fun initial => (lodged_of_load wellFormed safe laysOut rfl).and
      (parted_of_load wellFormed safe laysOut (known.within initial (Nat.le_refl _))
        fun slot source value listed given => (trusts.source listed given).1)
  cases ran with
  | unloaded initial failed kept =>
    refine ⟨?_, by simp⟩
    rcases kept with within | within
    · exact known.within within size
    · exact ((load initial).of_error failed).2.within within (Nat.le_refl _)
  | stopped _ _ _ kept => exact ⟨known.within kept size, by simp⟩
  | @finished slots left values loaded final initial ready ran kept =>
    have steps := (steps_ends laysOut (fun front state =>
      graph.Lodged heldOutside start arguments vars front state ∧
        graph.Parted start arguments vars front state) (fun _ => True) ?_ (fun _ _ => trivial)
      ((load initial).of_ok ready)).of_ok ran
    · rcases steps with ⟨⟨lodged, parted⟩, read⟩
      refine ⟨?_, by rintro _ ⟨⟩; exact parted.handsOut safe closed lodged read⟩
      rcases kept with within | within
      · exact known.within within size
      · exact parted.known.within within (Nat.le_refl _)
    · intro front id back node step state split _ live stands ⟨lodged, parted⟩
      have moved : Ends (executable.step heldOutside step) state
          (fun _ final => graph.Lodged heldOutside start arguments vars (front ++ [id]) final)
          (fun _ => True) :=
        lodged.advance wellFormed safe live stands closed split (fresh id node live).quiet
      refine (moved.and Executable.step_ends).imp ?_ fun _ _ => trivial
      exact fun _ _ after => ⟨after.1, parted.move wellFormed live safe stands closed split
        (fresh id node live) after.2⟩

end Whole

end Dataflow

end ArrayGraph
