import Mathlib
import ArrayGraph.Proofs.Elementwise
import ArrayGraph.Proofs.Run.Slots

/-!
# Operations and runs on values of the right types

A value is of a type if its buffer exists, and holds as many elements as its shape asks for. That is
all an operation needs to answer with values of the types that are inferred for it: it fails only if
the shapes of its operands turn out not to agree, if a reshape asks for another number of elements, or
if a host function fails by itself.

Memory may change in many ways while values stay of their types. Buffers may be written, but keep
their sizes, and containers may be given other values of their types.
-/

namespace ArrayGraph

variable {α : Type}

/-- If the number of elements of a shape fits, it is the product of the dimensions. -/
theorem prod_of_elementCount? {shape : List Nat} {count : Nat}
    (counted : elementCount? shape = some count) : shape.prod = count := by
  have product : ∀ (shape : List Nat) (start : Nat), shape.foldlM (fun count dimension =>
      if count * dimension < sizeLimit then some (count * dimension) else none) start = some count →
        start * shape.prod = count := by
    intro shape
    induction shape with
    | nil => simp
    | cons dimension rest ih =>
      intro start done
      simp only [List.foldlM_cons, Option.bind_eq_bind, Option.bind_eq_some_iff,
        Option.ite_none_right_eq_some, Option.some.injEq] at done
      rcases done with ⟨_, ⟨_, rfl⟩, done⟩
      rw [List.prod_cons, ← Nat.mul_assoc]
      exact ih _ done
  simpa using product shape 1 counted

namespace ScalarFunction

variable [Arithmetic α] {function : ScalarFunction} {name : String} {operands : List (Tensor α)}

theorem exists_evaluate? {numbers : List α} (arity : numbers.length = function.arity) :
    ∃ y, function.evaluate? numbers = some y := by
  match numbers, arity with
  | [], arity => cases function <;> cases arity
  | [x], arity => cases function <;> first | exact ⟨_, rfl⟩ | cases arity
  | x :: y :: _, _ => cases function <;> exact ⟨_, rfl⟩

omit [Arithmetic α] in
/-- Every position of the common shape is one of each operand that is not a single element. -/
theorem exists_operandAt (sized : ∀ operand ∈ operands, operand.shape.prod = operand.data.size)
    {shape : List Nat} (agreed : commonShape name operands = Except.ok shape) {index : Nat}
    (inside : index < shape.prod) {operand : Tensor α} (member : operand ∈ operands) :
    ∃ x, operandAt operand index = Except.ok x := by
  have size := sized operand member
  have position : (if operand.data.size = 1 then 0 else index) < operand.data.size := by
    cases dimensions : operand.shape.isEmpty with
    | true =>
      rw [List.isEmpty_iff.mp dimensions, List.prod_nil] at size
      simp [← size]
    | false =>
      rw [(shape_of_commonShape agreed).1 operand member dimensions] at size
      split <;> omega
  refine ⟨operand.data[if operand.data.size = 1 then 0 else index], ?_⟩
  simp only [operandAt, Checked.orFault_eq_ok_iff]
  exact Array.getElem?_eq_getElem position

omit [Arithmetic α] in
/-- Arrays whose shapes differ are reported as an error of the caller. -/
theorem commonShape_ne_abort (fault : Fault) : commonShape name operands ≠ Checked.abort fault := by
  unfold commonShape
  split
  · simp [Checked.abort]
  · split <;> simp [Checked.raise, Checked.abort]

/-- A scalar function on arrays with as many elements as their shapes ask for reads none past an end. -/
theorem compute_ne_noSuchElement (function : ScalarFunction)
    (sized : ∀ operand ∈ operands, operand.shape.prod = operand.data.size) (position : Nat) :
    function.compute name operands ≠ Checked.abort (.noSuchElement position) := by
  unfold compute
  refine Checked.bind_ne_error (commonShape_ne_abort _) fun shape agreed => ?_
  refine Checked.bind_ne_error (Checked.orFault_ne_abort (by simp)) fun count counted => ?_
  rw [elementCount, Checked.orFault_eq_ok_iff] at counted
  refine Checked.bind_ne_error (Checked.mapM_ne_error fun index inside => ?_) fun _ _ => by simp
  rw [List.mem_range, ← prod_of_elementCount? counted] at inside
  refine Checked.bind_ne_error (Checked.mapM_ne_error fun operand member => ?_) fun numbers _ => ?_
  · rcases exists_operandAt sized agreed inside member with ⟨x, read⟩
    simp [read]
  · exact Checked.orFault_ne_abort (by simp)

/-- A scalar function has a value on arrays whose shapes agree. -/
theorem compute_of_commonShape (arity : operands.length = function.arity)
    (sized : ∀ operand ∈ operands, elementCount? operand.shape = some operand.data.size)
    {shape : List Nat} (agreed : commonShape name operands = Except.ok shape) :
    ∃ result, function.compute name operands = Except.ok result := by
  have counted : ∃ count, elementCount? shape = some count := by
    cases dimensions : shape.isEmpty with
    | true =>
      rw [List.isEmpty_iff.mp dimensions]
      exact ⟨1, rfl⟩
    | false =>
      rcases (shape_of_commonShape agreed).2 dimensions with ⟨operand, member, rfl⟩
      exact ⟨_, sized operand member⟩
  rcases counted with ⟨count, counted⟩
  have each : ∀ index ∈ List.range count, ∃ y, function.elementAt operands index = Except.ok y := by
    intro index inside
    rw [← prod_of_elementCount? counted, List.mem_range] at inside
    have numbers : ∀ operand ∈ operands, ∃ x, operandAt operand index = Except.ok x := fun operand =>
      exists_operandAt (fun operand member => prod_of_elementCount? (sized operand member)) agreed inside
    rcases exists_forall₂ numbers with ⟨found, read⟩
    rcases exists_evaluate? (read.length_eq.symm.trans arity) with ⟨y, evaluated⟩
    exact ⟨y, elementAt_eq_ok_iff.mpr ⟨found, read, evaluated⟩⟩
  rcases exists_forall₂ each with ⟨data, mapped⟩
  refine ⟨_, Checked.bind_eq_ok_iff.mpr ⟨shape, agreed, Checked.bind_eq_ok_iff.mpr ⟨count, ?_,
    Checked.bind_eq_ok_iff.mpr ⟨data, Checked.mapM_eq_ok_iff.mpr mapped, rfl⟩⟩⟩⟩
  simpa [elementCount] using counted

/-- All that a scalar function can object to is that shapes do not agree. -/
theorem compute_cases (name : String) (arity : operands.length = function.arity)
    (sized : ∀ operand ∈ operands, elementCount? operand.shape = some operand.data.size) :
    (∃ result, function.compute name operands = Except.ok result) ∨
      function.compute name operands =
        Checked.raise (.incompatibleShapes name (operands.map (·.shape))) := by
  have shapes : (∃ shape, commonShape name operands = Except.ok shape) ∨ commonShape name operands =
      Checked.raise (.incompatibleShapes name (operands.map (·.shape))) := by
    unfold commonShape
    split
    · exact Or.inl ⟨_, rfl⟩
    · split
      · exact Or.inl ⟨_, rfl⟩
      · exact Or.inr rfl
  rcases shapes with ⟨shape, agreed⟩ | disagreed
  · exact Or.inl (compute_of_commonShape arity sized agreed)
  · refine Or.inr ?_
    unfold compute
    rw [disagreed]
    rfl

end ScalarFunction

namespace Memory

/-- A value of a type, on a buffer that exists. -/
structure Fits (memory : Memory α) (value : Value) (type : ArrayType) : Prop where
  known : memory.Knows value
  conforms : (memory.tensor value).Conforms type

/-- Containers hold values of their types. -/
structure Sound (memory : Memory α) : Prop where
  held : ∀ id value, (memory.container id).value = some value →
    memory.Fits value (memory.container id).type

/-- A memory after changes that values and containers outlast: they stay of their types. -/
structure Preserves (before after : Memory α) : Prop where
  size : before.buffers.size ≤ after.buffers.size
  read : ∀ buffer : BufferId, buffer.index < before.buffers.size →
    (after.read buffer).size = (before.read buffer).size
  containers : before.containers.size ≤ after.containers.size
  type : ∀ id : ContainerId, id.index < before.containers.size →
    (after.container id).type = (before.container id).type
  sound : before.Sound → after.Sound

/-- The same, without a container being released. -/
structure Retains (before after : Memory α) : Prop extends Preserves before after where
  unreleased : ∀ id, (before.container id).value ≠ none → (after.container id).value ≠ none

variable {memory before middle after : Memory α} {value : Value} {type : ArrayType}

theorem Fits.sized (fits : memory.Fits value type) : memory.Fits value value.type :=
  ⟨fits.known, rfl, ArrayType.acceptsShape_ofShape _ _, fits.conforms.size⟩

theorem Fits.of_type (sized : memory.Fits value value.type) (element : value.element = type.element)
    (shape : type.acceptsShape value.shape) : memory.Fits value type :=
  ⟨sized.known, element, shape, sized.conforms.size⟩

theorem Preserves.refl (memory : Memory α) : memory.Preserves memory where
  size := Nat.le_refl _
  read _ _ := rfl
  containers := Nat.le_refl _
  type _ _ := rfl
  sound := id

theorem Preserves.trans (first : before.Preserves middle) (second : middle.Preserves after) :
    before.Preserves after where
  size := Nat.le_trans first.size second.size
  read buffer known :=
    (second.read buffer (Nat.lt_of_lt_of_le known first.size)).trans (first.read buffer known)
  containers := Nat.le_trans first.containers second.containers
  type id known :=
    (second.type id (Nat.lt_of_lt_of_le known first.containers)).trans (first.type id known)
  sound := second.sound ∘ first.sound

theorem Retains.refl (memory : Memory α) : memory.Retains memory :=
  ⟨.refl memory, fun _ held => held⟩

theorem Retains.trans (first : before.Retains middle) (second : middle.Retains after) :
    before.Retains after :=
  ⟨first.toPreserves.trans second.toPreserves,
    fun id held => second.unreleased id (first.unreleased id held)⟩

/-- Values stay of their types. -/
theorem Fits.later (fits : before.Fits value type)
    (size : before.buffers.size ≤ after.buffers.size)
    (read : ∀ buffer : BufferId, buffer.index < before.buffers.size →
      (after.read buffer).size = (before.read buffer).size) : after.Fits value type where
  known := Nat.lt_of_lt_of_le fits.known size
  conforms := ⟨fits.conforms.element, fits.conforms.shape,
    fits.conforms.size.trans (congrArg some (read value.buffer fits.known).symm)⟩

theorem Fits.preserved (fits : before.Fits value type) (preserves : before.Preserves after) :
    after.Fits value type :=
  fits.later preserves.size preserves.read

/-- Buffers may come and be written as long as containers are left alone. -/
theorem retains_of_containers (size : before.buffers.size ≤ after.buffers.size)
    (read : ∀ buffer : BufferId, buffer.index < before.buffers.size →
      (after.read buffer).size = (before.read buffer).size)
    (same : after.containers = before.containers) : before.Retains after := by
  have container : ∀ id, after.container id = before.container id := by
    intro id
    rw [Memory.container, Memory.container, same]
  refine ⟨⟨size, read, Nat.le_of_eq (by rw [same]), fun id _ => by rw [container], ?_⟩,
    fun id held => by rwa [container]⟩
  intro sound
  refine ⟨fun id value held => ?_⟩
  rw [container] at held ⊢
  exact (sound.held id value held).later size read

theorem Keeps.retains (keeps : before.Keeps after) : before.Retains after :=
  retains_of_containers keeps.size (fun buffer known => by rw [keeps.read buffer known])
    keeps.containers

theorem retains_write {buffer : BufferId} {data : Array α}
    (size : (memory.read buffer).size = data.size) : memory.Retains (memory.write buffer data) := by
  refine retains_of_containers (by simp) ?_ rfl
  intro other known
  by_cases same : other = buffer
  · subst same
    rw [read_write_self memory data known, size]
  · rw [read_write_of_ne memory data same]

theorem fits_store {result : Tensor α} (conforms : result.Conforms type) :
    (memory.allocate result.data).2.Fits
      ⟨result.element, result.shape, (memory.allocate result.data).1⟩ type where
  known := by simp [Knows, allocate_fresh]
  conforms := ⟨conforms.element, conforms.shape, by
    simpa [tensor, contents] using conforms.size⟩

end Memory

/-- A value with the element type and the number of dimensions that a type asks for. The sizes of the
dimensions may be others: they are not known before a call. -/
structure Memory.Resembles (memory : Memory α) (value : Value) (type : ArrayType) : Prop where
  sized : memory.Fits value value.type
  element : value.element = type.element
  rank : value.shape.length = type.rank

theorem Memory.Resembles.fits {memory : Memory α} {value : Value} {element : ElementType}
    {rank : Nat} (resembles : memory.Resembles value (ArrayType.ofRank element rank)) :
    memory.Fits value (ArrayType.ofRank element rank) := by
  refine .of_type resembles.sized resembles.element ?_
  have length : value.shape.length = rank := by simpa [ArrayType.rank, ArrayType.ofRank] using
    resembles.rank
  exact length ▸ ArrayType.acceptsShape_ofRank element value.shape

/-- A host function that answers with values of the types it declares when it is called with what
resembles its inputs. It may write to buffers and to containers, but releases none. -/
structure HostFunction.Abides (function : HostFunction α) : Prop where
  ok : ∀ inputs memory outputs after, memory.Sound →
    List.Forall₂ memory.Resembles inputs function.inputTypes →
      function.run inputs memory = .ok outputs after →
        memory.Retains after ∧ List.Forall₂ after.Fits outputs function.outputTypes
  error : ∀ inputs memory failure after, memory.Sound →
    List.Forall₂ memory.Resembles inputs function.inputTypes →
      function.run inputs memory = .error failure after → memory.Retains after

theorem ArrayType.rank_of_unifyShape? {left right : ArrayType}
    (unified : (left.unifyShape? right).isSome) : left.rank = right.rank := by
  unfold ArrayType.unifyShape? at unified
  split at unified
  · assumption
  · cases unified

theorem HostFunction.resemble_of_checkInputs {name : String} {index : Nat}
    {expected types : List ArrayType} {memory : Memory α} {inputs : List Value}
    (checked : HostFunction.checkInputs name index expected types = Except.ok ())
    (length : types.length = expected.length) (fits : List.Forall₂ memory.Fits inputs types) :
    List.Forall₂ memory.Resembles inputs expected := by
  induction fits generalizing index expected with
  | nil =>
    cases List.length_eq_zero_iff.mp length.symm
    exact .nil
  | @cons value type values types fit fits ih =>
    cases expected with
    | nil => cases length
    | cons declared rest =>
      rw [checkInputs] at checked
      split at checked
      · rename_i agrees
        simp only [Bool.and_eq_true, decide_eq_true_eq] at agrees
        refine .cons ⟨fit.sized, fit.conforms.element.trans agrees.1.symm, ?_⟩
          (ih checked (by simpa using length))
        exact (ArrayType.rank_of_acceptsShape fit.conforms.shape).symm.trans
          (ArrayType.rank_of_unifyShape? agrees.2).symm
      · cases checked

/-- An operation that can be relied on: a host function abides by what it declares, and the shape that
a reshape asks for has a number of elements. -/
structure Op.Reliable (op : Op α) : Prop where
  abides : ∀ function, op = .host function → function.Abides
  counted : ∀ shape, op = .reshape shape → (elementCount? shape).isSome

namespace Op

variable [Arithmetic α] {op : Op α} {inputs : List Value} {types outputs : List ArrayType}
  {memory : Memory α}

/-- The ways in which an operation may refuse values of the right types. -/
inductive Refuses (op : Op α) (inputs : List Value) (memory : Memory α) :
    Failure OpError → Memory α → Prop
  | shapes {function : ScalarFunction} {target : Option Nat}
      (applies : op = .elementwise function target) :
      Refuses op inputs memory
        (Failure.error (.incompatibleShapes op.name (inputs.map (·.shape)))) memory
  | reshape {shape : List Nat} {input : Value} (reshapes : op = .reshape shape)
      (given : inputs = [input]) :
      Refuses op inputs memory (Failure.error (.badReshape input.type shape)) memory
  | host {function : HostFunction α} {failure : Failure OpError} {after : Memory α}
      (calls : op = .host function) (ran : function.run inputs memory = .error failure after) :
      Refuses op inputs memory failure after

/-- What an operation on values of the right types may come to. -/
inductive Responds (op : Op α) (inputs : List Value) (types : List ArrayType) (memory : Memory α) :
    EStateM.Result (Failure OpError) (Memory α) (List Value) → Prop
  | ok {values : List Value} {after : Memory α} (retains : memory.Retains after)
      (fits : List.Forall₂ after.Fits values types) : Responds op inputs types memory (.ok values after)
  | refused {failure : Failure OpError} {after : Memory α} (retains : memory.Retains after)
      (refuses : op.Refuses inputs memory failure after) :
      Responds op inputs types memory (.error failure after)

omit [Arithmetic α] in
/-- The single input of an operation that has one, with its type. -/
theorem single_of_fits (one : types.length = 1) (fits : List.Forall₂ memory.Fits inputs types) :
    ∃ input type, inputs = [input] ∧ types = [type] ∧ memory.Fits input type := by
  rcases List.length_eq_one_iff.mp one with ⟨type, rfl⟩
  cases fits with
  | cons fits none =>
    cases none
    exact ⟨_, type, rfl, rfl, fits⟩

omit [Arithmetic α] in
theorem conform_of_fits (fits : List.Forall₂ memory.Fits inputs types) :
    List.Forall₂ Tensor.Conforms (inputs.map memory.tensor) types :=
  List.forall₂_map_left_iff.mpr (fits.imp fun _ _ fits => fits.conforms)

omit [Arithmetic α] in
theorem sized_of_conform {operands : List (Tensor α)}
    (conform : List.Forall₂ Tensor.Conforms operands types) :
    ∀ operand ∈ operands, elementCount? operand.shape = some operand.data.size := by
  intro operand member
  rcases List.mem_iff_getElem?.mp member with ⟨index, found⟩
  rcases forall₂_getElem?_left conform found with ⟨_, _, conforms⟩
  exact conforms.size

/-- An operation of the table either computes an array of the type that is inferred for it, or refuses
its inputs. -/
theorem compute_cases (reliable : op.Reliable) (table : ∀ function, op ≠ .host function)
    (inferred : op.inferTypes types = Except.ok outputs)
    (fits : List.Forall₂ memory.Fits inputs types) :
    (∃ result type, op.compute (inputs.map memory.tensor) = Except.ok result ∧ outputs = [type] ∧
      result.Conforms type) ∨
    ∃ failure, op.compute (inputs.map memory.tensor) = Except.error failure ∧
      op.Refuses inputs memory failure memory := by
  have arity := arity_of_inferTypes inferred
  have conform := conform_of_fits fits
  have computed : (∃ result, op.compute (inputs.map memory.tensor) = Except.ok result) ∨
      ∃ failure, op.compute (inputs.map memory.tensor) = Except.error failure ∧
        op.Refuses inputs memory failure memory := by
    cases op with
    | host function => exact absurd rfl (table function)
    | elementwise function target =>
      rcases ScalarFunction.compute_cases (Op.elementwise function target : Op α).name
        (conform.length_eq.trans arity) (sized_of_conform conform) with computed | refused
      · exact Or.inl computed
      · refine Or.inr ⟨_, refused, ?_⟩
        rw [List.map_map]
        exact .shapes rfl
    | reshape shape =>
      rcases single_of_fits arity fits with ⟨input, type, rfl, rfl, fits⟩
      rcases Option.isSome_iff_exists.mp (reliable.counted shape rfl) with ⟨count, counted⟩
      have counted : (elementCount shape : Checked OpError Nat) = Except.ok count := by
        simpa [elementCount] using counted
      simp only [compute, List.map_cons, List.map_nil, Tensor.reshape, counted, Checked.ok_bind]
      split
      · exact Or.inl ⟨_, rfl⟩
      · exact Or.inr ⟨_, rfl, .reshape rfl rfl⟩
    | fill number =>
      rcases single_of_fits arity fits with ⟨input, type, rfl, rfl, inputFits⟩
      have counted : (elementCount (memory.tensor input).shape : Checked OpError Nat) =
          Except.ok (memory.tensor input).data.size := by
        simpa [elementCount] using inputFits.conforms.size
      simp only [compute, List.map_cons, List.map_nil, Tensor.fill, counted, Checked.ok_bind]
      exact Or.inl ⟨_, rfl⟩
    | _ =>
      rcases single_of_fits arity fits with ⟨input, type, rfl, rfl, fits⟩
      exact Or.inl ⟨_, rfl⟩
  rcases computed with ⟨result, computed⟩ | refused
  · rcases compute_conforms table inferred conform computed with ⟨type, same, conforms⟩
    exact Or.inl ⟨result, type, computed, same, conforms⟩
  · exact Or.inr refused

omit [Arithmetic α] in
/-- A result is stored in a new buffer without ado. -/
theorem store_fits {result : Tensor α} {type : ArrayType} (conforms : result.Conforms type) :
    ∃ value after, (Value.store result.element result.shape result.data :
      Action α OpError Value) memory = .ok value after ∧ memory.Retains after ∧
        after.Fits value type :=
  ⟨_, _, rfl, (Memory.keeps_allocate _ _).retains, Memory.fits_store conforms⟩

/-- A result is put where it belongs without ado. -/
theorem place_fits {result : Tensor α} {type : ArrayType} (table : ∀ function, op ≠ .host function)
    (inferred : op.inferTypes types = Except.ok [type]) (fits : List.Forall₂ memory.Fits inputs types)
    (computed : op.compute (inputs.map memory.tensor) = Except.ok result)
    (conforms : result.Conforms type) :
    ∃ value after, op.place inputs result memory = .ok value after ∧ memory.Retains after ∧
      after.Fits value type := by
  have arity := arity_of_inferTypes inferred
  cases op with
  | host function => exact absurd rfl (table function)
  | elementwise function target =>
    cases target with
    | none => exact store_fits conforms
    | some position =>
      rcases inferTypes_elementwise inferred with ⟨name, output, typed, same, overwritten⟩
      cases same
      rcases forall₂_getElem?_right fits (overwritten position rfl) with ⟨target, found, targetFits⟩
      have foundTensor : (inputs.map memory.tensor)[position]? = some (memory.tensor target) := by
        rw [List.getElem?_map, found]
        rfl
      rcases ScalarFunction.compute_like_operand typed (conform_of_fits fits) computed
        (overwritten position rfl) foundTensor with ⟨element, shape, size⟩
      have retains : memory.Retains (memory.write target.buffer result.data) :=
        Memory.retains_write size
      refine ⟨target, _, ?_, retains, targetFits.preserved retains.toPreserves⟩
      have located : (Action.ofChecked (Checked.orFault inputs[position]?
          (.noSuchOperand position)) : Action α OpError Value) memory = .ok target memory := by
        rw [found]
        rfl
      exact (bind_of_ok located).trans (writeOver_of_form element shape size)
  | reshape shape =>
    rcases single_of_fits arity fits with ⟨input, inputType, rfl, rfl, inputFits⟩
    refine ⟨{ input with shape := result.shape }, memory, rfl, .refl memory, inputFits.known, ?_⟩
    simp only [compute, List.map_cons, List.map_nil, Tensor.reshape, Checked.bind_eq_ok_iff] at computed
    rcases computed with ⟨count, _, computed⟩
    split at computed
    · cases computed
      exact conforms
    · cases computed
  | view =>
    rcases single_of_fits arity fits with ⟨input, inputType, rfl, rfl, inputFits⟩
    refine ⟨{ input with shape := result.shape }, memory, rfl, .refl memory, inputFits.known, ?_⟩
    cases computed
    exact conforms
  | _ =>
    rcases single_of_fits arity fits with ⟨input, inputType, rfl, rfl, inputFits⟩
    exact store_fits conforms

theorem responds_perform (reliable : op.Reliable) (sound : memory.Sound)
    (inferred : op.inferTypes types = Except.ok outputs)
    (fits : List.Forall₂ memory.Fits inputs types) :
    op.Responds inputs outputs memory (op.perform inputs memory) := by
  have arity : inputs.length = op.arity := fits.length_eq.trans (arity_of_inferTypes inferred)
  by_cases table : ∀ function, op ≠ .host function
  · rcases compute_cases reliable table inferred fits with
      ⟨result, type, computed, rfl, conforms⟩ | ⟨failure, refused, refuses⟩
    · rcases place_fits table inferred fits computed conforms with
        ⟨value, after, placed, retains, valueFits⟩
      rw [perform_of_ok table arity computed placed]
      exact .ok retains (.cons valueFits .nil)
    · rw [perform_of_error table arity refused]
      exact .refused (.refl memory) refuses
  · simp only [not_forall, not_not] at table
    rcases table with ⟨function, rfl⟩
    have abides := reliable.abides function rfl
    have accepted : outputs = function.outputTypes ∧
        List.Forall₂ memory.Resembles inputs function.inputTypes := by
      have count := arity_of_inferTypes inferred
      simp only [inferTypes, count, ne_eq, not_true_eq_false, if_false,
        Checked.bind_eq_ok_iff] at inferred
      rcases inferred with ⟨_, checked, same⟩
      cases same
      exact ⟨rfl, HostFunction.resemble_of_checkInputs checked count fits⟩
    rcases accepted with ⟨rfl, resemble⟩
    have performed : (Op.host function).perform inputs memory = (do
        let outputs ← function.run inputs
        if outputs.length = function.outputTypes.length then pure outputs
        else Action.raise (.outputCount function.name function.outputTypes.length
          outputs.length) : Action α OpError (List Value)) memory := by
      unfold perform
      rw [if_neg (by simp [arity])]
    rw [performed]
    cases ran : function.run inputs memory with
    | error failure after =>
      rw [bind_of_error ran]
      exact .refused (abides.error inputs memory failure after sound resemble ran) (.host rfl ran)
    | ok values after =>
      rcases abides.ok inputs memory values after sound resemble ran with ⟨retains, valuesFit⟩
      rw [bind_of_ok ran, if_pos valuesFit.length_eq]
      exact .ok retains valuesFit

omit [Arithmetic α] in
/-- A leftover value is written over only if that is possible. -/
theorem placeInto_fits {leftover : Option Value} {result : Tensor α} {type : ArrayType}
    (sized : ∀ value ∈ leftover, memory.Fits value value.type) (conforms : result.Conforms type) :
    ∃ value after, placeInto leftover result memory = .ok value after ∧ memory.Retains after ∧
      after.Fits value type := by
  cases leftover with
  | none => exact store_fits conforms
  | some target =>
    by_cases same : target.shape = result.shape ∧ target.element = result.element
    · rcases same with ⟨shape, element⟩
      have targetFits : memory.Fits target type :=
        .of_type (sized target rfl) (element.trans conforms.element) (shape ▸ conforms.shape)
      have size : (memory.contents target).size = result.data.size := by
        have counted := targetFits.conforms.size
        rw [Memory.tensor, shape, conforms.size] at counted
        exact (Option.some.inj counted).symm
      have retains : memory.Retains (memory.write target.buffer result.data) :=
        Memory.retains_write size
      refine ⟨target, _, ?_, retains, targetFits.preserved retains.toPreserves⟩
      simp only [placeInto, shape, element, decide_true, Bool.and_self, if_true]
      exact writeOver_of_form element shape size
    · have refused : ¬(target.shape = result.shape && target.element = result.element) = true := by
        simpa using same
      simpa only [placeInto, if_neg refused] using store_fits conforms

/-- It makes no difference to the types where planned execution puts a result. -/
theorem responds_performPlanned (reliable : op.Reliable) (sound : memory.Sound)
    (inferred : op.inferTypes types = Except.ok outputs)
    (fits : List.Forall₂ memory.Fits inputs types) {leftover : Option Value}
    (sized : ∀ value ∈ leftover, memory.Fits value value.type) :
    op.Responds inputs outputs memory (op.performPlanned inputs leftover memory) := by
  have performed := responds_perform reliable sound inferred fits
  match op with
  | .elementwise function none =>
    have table : ∀ host, (Op.elementwise function none : Op α) ≠ .host host := by simp
    rcases compute_cases reliable table inferred fits with
      ⟨result, type, computed, rfl, conforms⟩ | ⟨failure, refused, refuses⟩
    · rcases placeInto_fits sized conforms with ⟨value, after, placed, retains, valueFits⟩
      have planned : (Op.elementwise function none).performPlanned inputs leftover memory =
          .ok [value] after := by
        change (Action.ofChecked _ >>= _) memory = _
        rw [computed]
        exact (bind_of_ok rfl).trans (bind_of_ok placed)
      rw [planned]
      exact .ok retains (.cons valueFits .nil)
    · have planned : (Op.elementwise function none).performPlanned inputs leftover memory =
          .error failure memory := by
        change (Action.ofChecked _ >>= _) memory = _
        rw [refused]
        rfl
      rw [planned]
      exact .refused (.refl memory) refuses
  | .elementwise _ (some _) | .sum | .reshape _ | .view | .copy | .fill _ | .cast _ | .host _ =>
    exact performed

end Op

end ArrayGraph
