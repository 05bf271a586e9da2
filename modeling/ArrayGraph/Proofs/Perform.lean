import ArrayGraph.Op.Perform
import ArrayGraph.Proofs.Run.Primitives
import ArrayGraph.Proofs.Typing

/-!
# What performing an operation does to the memory

An operation either gives another handle on its input, or writes over an input, or puts its results
into new buffers. In all three cases the arrays it gives are those that evaluation gives, for the
contents that its inputs have at that moment. A view looks at the shape and the size of its input
only, so this holds for a view even of contents that are out of date.
-/

namespace ArrayGraph

variable {α : Type}

namespace Memory

/-- A handle on a buffer that exists. -/
def Knows (memory : Memory α) (value : Value) : Prop := value.buffer.index < memory.buffers.size

/-- Nothing that was there has changed. -/
structure Keeps (before after : Memory α) : Prop where
  size : before.buffers.size ≤ after.buffers.size
  read : ∀ buffer : BufferId, buffer.index < before.buffers.size →
    after.read buffer = before.read buffer
  containers : after.containers = before.containers

/-- Handles on different buffers that were not there before. -/
structure Fresh (before after : Memory α) (values : List Value) : Prop where
  new : ∀ value ∈ values, before.buffers.size ≤ value.buffer.index
  known : ∀ value ∈ values, after.Knows value
  distinct : (values.map (·.buffer)).Nodup

theorem Keeps.refl (memory : Memory α) : memory.Keeps memory :=
  ⟨Nat.le_refl _, fun _ _ => rfl, rfl⟩

theorem Keeps.trans {first second third : Memory α} (earlier : first.Keeps second)
    (later : second.Keeps third) : first.Keeps third where
  size := Nat.le_trans earlier.size later.size
  read buffer known :=
    (later.read buffer (Nat.lt_of_lt_of_le known earlier.size)).trans (earlier.read buffer known)
  containers := later.containers.trans earlier.containers

theorem keeps_allocate (memory : Memory α) (data : Array α) : memory.Keeps (memory.allocate data).2 :=
  ⟨by simp, fun _ known => memory.read_allocate_of_lt data known, rfl⟩

theorem Keeps.knows {before after : Memory α} (keeps : before.Keeps after) {value : Value}
    (known : before.Knows value) : after.Knows value := Nat.lt_of_lt_of_le known keeps.size

theorem Keeps.tensor {before after : Memory α} (keeps : before.Keeps after) {value : Value}
    (known : before.Knows value) : after.tensor value = before.tensor value := by
  simp only [Memory.tensor, contents, keeps.read value.buffer known]

end Memory

/-- A host function computes a function of the contents of its inputs, gives its results in new
buffers and changes nothing. -/
structure HostFunction.Computes (function : HostFunction α) (hosts : Meaning α) : Prop where
  ok : ∀ inputs memory outputs after, (∀ value ∈ inputs, memory.Knows value) →
    function.run inputs memory = .ok outputs after →
      hosts function.identity (inputs.map memory.tensor) = Except.ok (outputs.map after.tensor) ∧
        memory.Keeps after ∧ memory.Fresh after outputs
  error : ∀ inputs memory failure after, (∀ value ∈ inputs, memory.Knows value) →
    function.run inputs memory = .error failure after →
      hosts function.identity (inputs.map memory.tensor) = Except.error failure ∧ memory.Keeps after
  typed : function.Typed hosts

/-- The host functions of an operation compute what they stand for. -/
def Op.Computes (op : Op α) (hosts : Meaning α) : Prop :=
  ∀ function, op = .host function → function.Computes hosts

namespace Op

variable [Arithmetic α] {op : Op α} {hosts : Meaning α} {inputs : List Value} {memory : Memory α}

omit [Arithmetic α] in
/-- A result may be written over a value of its form. -/
theorem writeOver_of_form {target : Value} {result : Tensor α} {mismatch : OpError}
    (element : target.element = result.element) (shape : target.shape = result.shape)
    (size : (memory.contents target).size = result.data.size) :
    writeOver target result mismatch memory =
      .ok target (memory.write target.buffer result.data) := by
  unfold writeOver
  refine (bind_of_ok rfl).trans ?_
  simp only [shape, element, size, decide_true, Bool.and_self, if_true]
  rfl

/-- An operation of the table computes first and places the result afterwards. -/
theorem perform_of_ok (table : ∀ function, op ≠ .host function) (arity : inputs.length = op.arity)
    {result : Tensor α} (computed : op.compute (inputs.map memory.tensor) = Except.ok result)
    {value : Value} {after : Memory α} (placed : op.place inputs result memory = .ok value after) :
    op.perform inputs memory = .ok [value] after := by
  unfold perform
  rw [if_neg (by simp [arity])]
  cases op with
  | host function => exact absurd rfl (table function)
  | _ =>
    change (Action.ofChecked _ >>= _) memory = _
    rw [computed]
    exact (bind_of_ok rfl).trans (bind_of_ok placed)

theorem perform_of_error (table : ∀ function, op ≠ .host function)
    (arity : inputs.length = op.arity) {failure : Failure OpError}
    (computed : op.compute (inputs.map memory.tensor) = Except.error failure) :
    op.perform inputs memory = .error failure memory := by
  unfold perform
  rw [if_neg (by simp [arity])]
  cases op with
  | host function => exact absurd rfl (table function)
  | _ =>
    change (Action.ofChecked _ >>= _) memory = _
    rw [computed]
    rfl

/-- The result of an operation that is no view and overwrites nothing gets a buffer of its own. -/
theorem place_separate (table : ∀ function, op ≠ .host function) (views : op.viewMap = [])
    (destroys : op.destroyMap = []) (result : Tensor α) :
    op.place inputs result memory =
      .ok ⟨result.element, result.shape, (memory.allocate result.data).1⟩
        (memory.allocate result.data).2 := by
  cases op with
  | elementwise function target =>
    cases target with
    | none => rfl
    | some position => cases destroys
  | host function => exact absurd rfl (table function)
  | reshape shape => cases views
  | view => cases views
  | _ => rfl

/-- A host function may do as it likes, but the number of its outputs is checked. -/
theorem perform_host {function : HostFunction α}
    (arity : inputs.length = (Op.host function : Op α).arity) :
    (Op.host function).perform inputs memory =
      match function.run inputs memory with
      | .ok outputs after =>
        if outputs.length = function.outputTypes.length then .ok outputs after
        else .error (Failure.error (.outputCount function.name function.outputTypes.length
          outputs.length)) after
      | .error failure after => .error failure after := by
  unfold perform
  rw [if_neg (by simp [arity])]
  cases ran : function.run inputs memory with
  | ok outputs after =>
    refine (bind_of_ok ran).trans ?_
    by_cases same : outputs.length = function.outputTypes.length
    · simp only [same, if_true]
      rfl
    · simp only [same, if_false]
      rfl
  | error failure after => exact bind_of_error ran

/-- A host function that computes what it is said to gives its results in new buffers. -/
theorem perform_host_separate {function : HostFunction α}
    (computes : (Op.host function).Computes hosts)
    (arity : inputs.length = (Op.host function : Op α).arity)
    (known : ∀ value ∈ inputs, memory.Knows value) :
    (∀ results, (Op.host function).evaluate hosts (inputs.map memory.tensor) = Except.ok results →
      ∃ outputs after, (Op.host function).perform inputs memory = .ok outputs after ∧
        outputs.map after.tensor = results ∧ memory.Keeps after ∧ memory.Fresh after outputs) ∧
    (∀ failure, (Op.host function).evaluate hosts (inputs.map memory.tensor) = Except.error failure →
      ∃ after, (Op.host function).perform inputs memory = .error failure after ∧
        memory.Keeps after) := by
  have computes := computes function rfl
  rw [perform_host arity]
  cases ran : function.run inputs memory with
  | ok outputs after =>
    rcases computes.ok inputs memory outputs after known ran with ⟨evaluated, keeps, fresh⟩
    simp only [evaluate, evaluated, Except.ok.injEq, reduceCtorEq, false_implies, implies_true,
      and_true]
    rintro results rfl
    have count := (computes.typed _ _ evaluated).length_eq
    rw [List.length_map] at count
    exact ⟨outputs, after, if_pos count, rfl, keeps, fresh⟩
  | error failure after =>
    rcases computes.error inputs memory failure after known ran with ⟨evaluated, keeps⟩
    simp only [evaluate, evaluated, Except.error.injEq, reduceCtorEq, false_implies, implies_true,
      true_and]
    rintro _ rfl
    exact ⟨after, rfl, keeps⟩

/-- An operation that is no view and overwrites nothing gives its results in new buffers. -/
theorem perform_separate (computes : op.Computes hosts) (views : op.viewMap = [])
    (destroys : op.destroyMap = []) (arity : inputs.length = op.arity)
    (known : ∀ value ∈ inputs, memory.Knows value) :
    (∀ results, op.evaluate hosts (inputs.map memory.tensor) = Except.ok results →
      ∃ outputs after, op.perform inputs memory = .ok outputs after ∧
        outputs.map after.tensor = results ∧ memory.Keeps after ∧ memory.Fresh after outputs) ∧
    (∀ failure, op.evaluate hosts (inputs.map memory.tensor) = Except.error failure →
      ∃ after, op.perform inputs memory = .error failure after ∧ memory.Keeps after) := by
  by_cases table : ∀ function, op ≠ .host function
  · rw [evaluate_of_table table]
    cases computed : op.compute (inputs.map memory.tensor) with
    | error failure =>
      refine ⟨by simp [Except.map], ?_⟩
      intro other same
      cases same
      exact ⟨memory, perform_of_error table arity computed, Memory.Keeps.refl memory⟩
    | ok result =>
      refine ⟨?_, by simp [Except.map]⟩
      intro results same
      cases same
      refine ⟨_, _, perform_of_ok table arity computed
        (place_separate table views destroys result), ?_, memory.keeps_allocate result.data, ?_⟩
      · simp [Memory.tensor, Memory.contents]
      · exact ⟨by simp [Memory.allocate_fresh], by simp [Memory.Knows, Memory.allocate_fresh],
          by simp⟩
  · simp only [not_forall, ne_eq, not_not] at table
    rcases table with ⟨function, rfl⟩
    exact perform_host_separate computes arity known

variable (hosts) in
/-- An operation that overwrites an input writes the result there, if it has the input's form. -/
theorem perform_overwrite {function : ScalarFunction} {position : Nat}
    (arity : inputs.length = function.arity) {target : Value}
    (found : inputs[position]? = some target)
    (alike : ∀ name result, function.compute name (inputs.map memory.tensor) = Except.ok result →
      target.element = result.element ∧ target.shape = result.shape ∧
        (memory.contents target).size = result.data.size) :
    (∀ results, (Op.elementwise function (some position) : Op α).evaluate hosts
        (inputs.map memory.tensor) = Except.ok results →
      ∃ result, results = [result] ∧
        (Op.elementwise function (some position)).perform inputs memory =
          .ok [target] (memory.write target.buffer result.data) ∧
        target.element = result.element ∧ target.shape = result.shape ∧
        (memory.contents target).size = result.data.size) ∧
    (∀ failure, (Op.elementwise function (some position) : Op α).evaluate hosts
        (inputs.map memory.tensor) = Except.error failure →
      (Op.elementwise function (some position)).perform inputs memory = .error failure memory) := by
  have table : ∀ host, (Op.elementwise function (some position) : Op α) ≠ .host host := by simp
  rw [evaluate_of_table table]
  cases computed : (Op.elementwise function (some position) : Op α).compute
      (inputs.map memory.tensor) with
  | error failure =>
    refine ⟨by simp [Except.map], ?_⟩
    intro other same
    cases same
    exact perform_of_error table arity computed
  | ok result =>
    refine ⟨?_, by simp [Except.map]⟩
    intro results same
    cases same
    rcases alike _ result computed with ⟨element, shape, size⟩
    refine ⟨result, rfl, perform_of_ok table arity computed ?_, element, shape, size⟩
    unfold place
    have located : (Action.ofChecked (Checked.orFault inputs[position]? (.noSuchOperand position)) :
        Action α OpError Value) memory = .ok target memory := by
      rw [found]
      rfl
    exact (bind_of_ok located).trans (writeOver_of_form element shape size)

variable (hosts) in
/-- A view gives a handle on the buffer of its input. It fails or succeeds with evaluation for any
array of the form of its input. -/
theorem perform_view (pure : op.isPureView) {input : Value} {tensor : Tensor α}
    (element : tensor.element = input.element) (shape : tensor.shape = input.shape)
    (size : tensor.data.size = (memory.contents input).size) :
    (∀ results, op.evaluate hosts [tensor] = Except.ok results → ∃ shape,
      results = [{ tensor with shape }] ∧ op.perform [input] memory = .ok [{ input with shape }] memory) ∧
    (∀ failure, op.evaluate hosts [tensor] = Except.error failure →
      op.perform [input] memory = .error failure memory) := by
  cases op with
  | reshape target =>
    have table : ∀ host, (Op.reshape target : Op α) ≠ .host host := by simp
    rw [evaluate_of_table table]
    have sameSize : (memory.tensor input).data.size = tensor.data.size := size.symm
    have sameType : (memory.tensor input).type = tensor.type := by
      simp [Tensor.type, Memory.tensor, element, shape]
    have computed : ∀ operand : Tensor α, (Op.reshape target : Op α).compute [operand] =
        operand.reshape target := fun _ => rfl
    rw [computed]
    unfold Tensor.reshape
    cases counted : elementCount (ε := OpError) target with
    | error failure =>
      refine ⟨by simp [Except.map], ?_⟩
      intro other same
      cases same
      refine perform_of_error table rfl ?_
      rw [List.map_singleton, computed, Tensor.reshape, counted]
      rfl
    | ok count =>
      simp only [Checked.ok_bind]
      by_cases same : count = tensor.data.size
      · rw [if_pos same]
        refine ⟨?_, by simp [Except.map]⟩
        intro results evaluated
        cases evaluated
        have sameResult : (Op.reshape target : Op α).compute ([input].map memory.tensor) =
            Except.ok { memory.tensor input with shape := target } := by
          rw [List.map_singleton, computed, Tensor.reshape, counted]
          simp only [Checked.ok_bind]
          rw [if_pos (same.trans sameSize.symm)]
        exact ⟨target, rfl, perform_of_ok table rfl sameResult rfl⟩
      · rw [if_neg same]
        refine ⟨by simp [Checked.raise, Except.map], ?_⟩
        intro failure evaluated
        cases evaluated
        refine perform_of_error table rfl ?_
        rw [List.map_singleton, computed, Tensor.reshape, counted]
        simp only [Checked.ok_bind]
        rw [if_neg (sameSize ▸ same), sameType]
        rfl
  | view =>
    refine ⟨?_, by simp [evaluate, compute, Except.map]⟩
    intro results evaluated
    cases evaluated
    refine ⟨tensor.shape, rfl, ?_⟩
    rw [perform_of_ok (by simp) rfl rfl rfl]
    simp [shape, Memory.tensor]
  | _ => cases pure

end Op

end ArrayGraph
