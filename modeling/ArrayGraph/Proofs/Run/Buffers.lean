import ArrayGraph.Proofs.Optimize.Meaning
import ArrayGraph.Proofs.Run.Frame
import ArrayGraph.Proofs.Run.Typed

/-!
# Handles on buffers

Many handles can be on one buffer, with different shapes, and each of them may be written through: an
element is set, all elements are overwritten, an operation puts its result over an input or into a
buffer that is left over. Each of these brings elements to the element type of its own handle and
counts elements in its own way. That they do not get into each other's way has one reason: whatever is
done, all handles have shapes that ask for as many elements as their buffers hold, handles on one
buffer have one element type, and what is stored is stored as that type asks for.

The invariant is kept by a new buffer that is filled as its handle asks for, by a further handle on a
buffer that is there, and by a write of as many elements as there were, stored as the handle asks for.
Every way to make, read and write values comes down to one of the three, or fails before it writes.
-/

namespace ArrayGraph

variable {α : Type}

namespace Memory

variable {memory before middle after : Memory α}

/-- No buffer is lost and none gets another size. -/
structure KeepsSizes (before after : Memory α) : Prop where
  size : before.buffers.size ≤ after.buffers.size
  read : ∀ buffer : BufferId, buffer.index < before.buffers.size →
    (after.read buffer).size = (before.read buffer).size

theorem KeepsSizes.refl (memory : Memory α) : memory.KeepsSizes memory :=
  ⟨Nat.le_refl _, fun _ _ => rfl⟩

theorem KeepsSizes.trans (first : before.KeepsSizes middle) (second : middle.KeepsSizes after) :
    before.KeepsSizes after where
  size := Nat.le_trans first.size second.size
  read buffer known :=
    (second.read buffer (Nat.lt_of_lt_of_le known first.size)).trans (first.read buffer known)

theorem Keeps.keepsSizes (keeps : before.Keeps after) : before.KeepsSizes after :=
  ⟨keeps.size, fun buffer known => by rw [keeps.read buffer known]⟩

theorem Retains.keepsSizes (retains : before.Retains after) : before.KeepsSizes after :=
  ⟨retains.size, retains.read⟩

variable [Arithmetic α] {handles others : List Value} {value : Value} {element : ElementType}
  {shape : List Nat} {data : Array α}

/-- A value on a buffer that exists and holds as many elements as the shape asks for, all of them
stored as the element type asks for. The number of elements need not fit in a machine word. -/
structure Backs (memory : Memory α) (value : Value) : Prop where
  known : memory.Knows value
  sized : value.shape.prod = (memory.contents value).size
  normalized : (memory.tensor value).Normalized

theorem Backs.of_tensor (backs : memory.Backs value) (known : after.Knows value)
    (same : after.tensor value = memory.tensor value) : after.Backs value where
  known := known
  sized := backs.sized.trans (congrArg (·.data.size) same.symm)
  normalized := by
    rw [same]
    exact backs.normalized

/-- What holds of a memory and the handles on its buffers. -/
structure Tended (memory : Memory α) (handles : List Value) : Prop where
  backs : ∀ value ∈ handles, memory.Backs value
  agree : ∀ left ∈ handles, ∀ right ∈ handles, left.buffer = right.buffer →
    left.element = right.element

theorem Tended.mono (tended : memory.Tended handles) (subset : others ⊆ handles) :
    memory.Tended others where
  backs value member := tended.backs value (subset member)
  agree left member right member' := tended.agree left (subset member) right (subset member')

/-- The state of containers is of no account. -/
theorem Tended.of_buffers (tended : memory.Tended handles) (same : after.buffers = memory.buffers) :
    after.Tended handles where
  backs value member := by
    refine (tended.backs value member).of_tensor ?_ ?_
    · have known := (tended.backs value member).known
      rwa [Knows, same]
    · simp only [tensor, contents, read, same]
  agree := tended.agree

/-- A new buffer that holds what its handle asks for. -/
theorem Tended.allocate (tended : memory.Tended handles)
    (sized : shape.prod = data.size) (stored : ∀ x ∈ data, element.Stores x) :
    (memory.allocate data).2.Tended (⟨element, shape, (memory.allocate data).1⟩ :: handles) where
  backs value member := by
    rcases List.mem_cons.mp member with rfl | member
    · exact ⟨by simp [Knows, allocate_fresh], by simpa [contents] using sized,
        by simpa [Tensor.Normalized, tensor, contents] using stored⟩
    · have backs := tended.backs value member
      have keeps := memory.keeps_allocate data
      exact backs.of_tensor (keeps.knows backs.known) (keeps.tensor backs.known)
  agree left member right member' same := by
    have old : ∀ value ∈ handles, value.buffer ≠ (memory.allocate data).1 := by
      intro value member same
      have known := (tended.backs value member).known
      rw [Knows, same, allocate_fresh] at known
      exact Nat.lt_irrefl _ known
    rcases List.mem_cons.mp member with rfl | member
    · rcases List.mem_cons.mp member' with rfl | member'
      · rfl
      · exact absurd same.symm (old right member')
    · rcases List.mem_cons.mp member' with rfl | member'
      · exact absurd same (old left member)
      · exact tended.agree left member right member' same

/-- The same buffer under another shape that asks for as many elements. -/
theorem Tended.view (tended : memory.Tended handles) (member : value ∈ handles)
    (sized : shape.prod = (memory.contents value).size) :
    memory.Tended ({ value with shape } :: handles) where
  backs other member' := by
    rcases List.mem_cons.mp member' with rfl | member'
    · have backs := tended.backs value member
      exact ⟨backs.known, sized, backs.normalized⟩
    · exact tended.backs other member'
  agree left member' right member'' same := by
    have seen : ∀ other ∈ { value with shape } :: handles, ∃ source ∈ handles,
        source.buffer = other.buffer ∧ source.element = other.element := by
      intro other listed
      rcases List.mem_cons.mp listed with rfl | listed
      · exact ⟨value, member, rfl, rfl⟩
      · exact ⟨other, listed, rfl, rfl⟩
    rcases seen left member' with ⟨first, firstMember, firstBuffer, firstElement⟩
    rcases seen right member'' with ⟨second, secondMember, secondBuffer, secondElement⟩
    rw [← firstElement, ← secondElement]
    exact tended.agree first firstMember second secondMember
      (firstBuffer.trans (same.trans secondBuffer.symm))

/-- As many elements as there were, stored as one of the handles asks for, which is what all handles on
the buffer ask for. -/
theorem Tended.write (tended : memory.Tended handles) (member : value ∈ handles)
    (size : data.size = (memory.contents value).size) (stored : ∀ x ∈ data, value.element.Stores x) :
    (memory.write value.buffer data).Tended handles where
  backs other listed := by
    have backs := tended.backs other listed
    have known : (memory.write value.buffer data).Knows other := by simpa [Knows] using backs.known
    by_cases same : other.buffer = value.buffer
    · have written : (memory.write value.buffer data).contents other = data := by
        rw [contents, same, read_write_self memory data (tended.backs value member).known]
      have before : memory.contents other = memory.contents value := by rw [contents, contents, same]
      refine ⟨known, ?_, ?_⟩
      · rw [written, size, ← before]
        exact backs.sized
      · intro x found
        rw [tensor, written] at found
        rw [tensor, tended.agree other listed value member same]
        exact stored x found
    · refine backs.of_tensor known ?_
      simp only [tensor, contents, read_write_of_ne memory data same]
  agree := tended.agree

/-- What comes of an action that gives values: they are tended with the handles there were, unless the
action fails, which leaves the memory as it was. -/
def Yields {ε : Type} (memory : Memory α) (handles : List Value) (action : Action α ε (List Value)) :
    Prop :=
  Ends action memory (fun outputs after => memory.KeepsSizes after ∧
    after.containers = memory.containers ∧ after.Tended (outputs ++ handles)) (· = memory)

/-- What comes of an action that gives a value. -/
def Gives {ε : Type} (memory : Memory α) (handles : List Value) (action : Action α ε Value) : Prop :=
  Ends action memory (fun value after => memory.KeepsSizes after ∧
    after.containers = memory.containers ∧ after.Tended (value :: handles)) (· = memory)

/-- What comes of an action that writes. -/
def Writes {ε : Type} (memory : Memory α) (handles : List Value) (action : Action α ε Unit) : Prop :=
  Ends action memory (fun _ after => memory.KeepsSizes after ∧
    after.containers = memory.containers ∧ after.Tended handles) (· = memory)

end Memory

/-- A computation that touches no memory goes on, or fails where it is. -/
theorem Ends.ofChecked {β γ δ : Type} {memory : Memory α} {computation : Checked δ β}
    {next : β → Action α δ γ} {good : γ → Memory α → Prop} {bad : Memory α → Prop} (idle : bad memory)
    (rest : ∀ value, computation = Except.ok value → Ends (next value) memory good bad) :
    Ends (Action.ofChecked computation >>= next) memory good bad := by
  cases computation with
  | ok value => exact Ends.after rfl (rest value rfl)
  | error failure => exact idle

section Values

variable [Arithmetic α] {memory : Memory α} {handles : List Value} {value : Value}
  {element : ElementType} {shape : List Nat} {data : Array α} {ε : Type}

open Memory

theorem ElementType.stores_normalize (element : ElementType) (x : α) :
    element.Stores (element.normalize x) := ⟨x, rfl⟩

theorem ElementType.stores_map_normalize (element : ElementType) (data : Array α) :
    ∀ x ∈ data.map element.normalize, element.Stores x := by
  intro x member
  rcases Array.mem_map.mp member with ⟨y, _, rfl⟩
  exact element.stores_normalize y

theorem Memory.Tended.store (tended : memory.Tended handles) (sized : shape.prod = data.size)
    (stored : ∀ x ∈ data, element.Stores x) :
    memory.Gives handles (Value.store element shape data : Action α ε Value) :=
  ⟨(memory.keeps_allocate data).keepsSizes, rfl, tended.allocate sized stored⟩

theorem Memory.Tended.create (tended : memory.Tended handles) :
    memory.Gives handles (Value.create element shape data) := by
  refine Ends.ofChecked rfl fun expected counted => ?_
  split
  · exact rfl
  · rename_i same
    rw [elementCount, Checked.orFault_eq_ok_iff] at counted
    refine tended.store ?_ (element.stores_map_normalize data)
    rw [prod_of_elementCount? counted, not_not.mp same, Array.size_map]

theorem Memory.Tended.scalar (tended : memory.Tended handles) (number : α) :
    memory.Gives handles (Value.scalar element number : Action α ε Value) := by
  refine tended.store rfl ?_
  intro x member
  rw [Array.mem_singleton.mp member]
  exact element.stores_normalize number

theorem Memory.Tended.vector (tended : memory.Tended handles) :
    memory.Gives handles (Value.vector data : Action α ε Value) :=
  tended.store List.prod_singleton fun x _ => ElementType.stores_normalize .float64 x

theorem Memory.Tended.filled (tended : memory.Tended handles) (number : α) :
    memory.Gives handles (Value.filled element shape number : Action α ε Value) := by
  refine Ends.ofChecked rfl fun count counted => ?_
  rw [elementCount, Checked.orFault_eq_ok_iff] at counted
  refine tended.store (by rw [prod_of_elementCount? counted, Array.size_replicate]) ?_
  intro x member
  rw [(Array.mem_replicate.mp member).2]
  exact element.stores_normalize number

theorem Memory.Tended.copy (tended : memory.Tended handles) (member : value ∈ handles) :
    memory.Gives handles (value.copy : Action α ε Value) := by
  have backs := tended.backs value member
  exact Ends.after rfl (tended.store backs.sized backs.normalized)

theorem Memory.Tended.cast (tended : memory.Tended handles) (member : value ∈ handles) :
    memory.Gives handles (value.cast element : Action α ε Value) := by
  refine Ends.after rfl (tended.store ?_ (element.stores_map_normalize _))
  rw [Array.size_map]
  exact (tended.backs value member).sized

theorem Memory.Tended.viewed (tended : memory.Tended handles) (member : value ∈ handles) :
    memory.Gives handles (value.view shape) := by
  refine Ends.ofChecked rfl fun count counted => Ends.after rfl ?_
  dsimp only
  split
  · exact rfl
  · rename_i same
    rw [elementCount, Checked.orFault_eq_ok_iff, not_not.mp same] at counted
    exact ⟨KeepsSizes.refl memory, rfl, tended.view member (prod_of_elementCount? counted)⟩

/-- A write through a handle, of as many elements as there were. -/
theorem Memory.Tended.written (tended : memory.Tended handles) (member : value ∈ handles)
    (size : data.size = (memory.contents value).size) (stored : ∀ x ∈ data, value.element.Stores x) :
    memory.KeepsSizes (memory.write value.buffer data) ∧
      (memory.write value.buffer data).containers = memory.containers ∧
      (memory.write value.buffer data).Tended handles :=
  ⟨(retains_write size.symm).keepsSizes, rfl, tended.write member size stored⟩

theorem Memory.Tended.set (tended : memory.Tended handles) (member : value ∈ handles) (index : Nat)
    (number : α) : memory.Writes handles (value.set index number) := by
  refine Ends.after rfl ?_
  dsimp only
  split
  · rename_i inside
    refine tended.written member (Array.size_setIfInBounds ..) ?_
    intro x found
    rcases Array.mem_or_eq_of_mem_setIfInBounds found with old | rfl
    · exact (tended.backs value member).normalized x old
    · exact value.element.stores_normalize number
  · exact rfl

theorem Memory.Tended.overwrite (tended : memory.Tended handles) (member : value ∈ handles) :
    memory.Writes handles (value.overwrite data) := by
  refine Ends.after rfl ?_
  split
  · exact rfl
  · rename_i same
    refine tended.written member ?_ (value.element.stores_map_normalize data)
    rw [Array.size_map, not_not.mp same]

end Values

namespace Op

variable [Arithmetic α] {op : Op α} {operands : List (Tensor α)} {result : Tensor α}
  {inputs : List Value} {spare : Option Value} {memory : Memory α} {handles : List Value}

/-- What an operation of the table computes has as many elements as its shape asks for. -/
theorem compute_sized (sized : ∀ operand ∈ operands, operand.shape.prod = operand.data.size)
    (computed : op.compute operands = Except.ok result) : result.shape.prod = result.data.size := by
  unfold compute at computed
  split at computed
  · exact prod_of_elementCount? (ScalarFunction.compute_eq_ok computed).2.2
  · cases computed
    rfl
  · rename_i shape operand rest
    simp only [Tensor.reshape, elementCount, Checked.bind_eq_ok_iff, Checked.orFault_eq_ok_iff]
      at computed
    rcases computed with ⟨count, counted, reshaped⟩
    split at reshaped
    · rename_i same
      cases reshaped
      exact (prod_of_elementCount? counted).trans same
    · cases reshaped
  · cases computed
    exact sized result (by simp)
  · cases computed
    exact sized result (by simp)
  · rename_i number operand rest
    simp only [Tensor.fill, elementCount, Checked.bind_eq_ok_iff, Checked.orFault_eq_ok_iff] at computed
    rcases computed with ⟨count, counted, filled⟩
    cases filled
    simpa using prod_of_elementCount? counted
  · rename_i element operand rest
    cases computed
    simpa [Tensor.cast] using sized operand (by simp)
  · cases computed
  · cases computed

/-- A view has the elements of its operand. -/
theorem data_of_reshape {shape : List Nat} {operand : Tensor α} {rest : List (Tensor α)}
    (computed : (Op.reshape shape).compute (operand :: rest) = Except.ok result) :
    result.data = operand.data := by
  simp only [compute, Tensor.reshape, Checked.bind_eq_ok_iff] at computed
  rcases computed with ⟨count, _, reshaped⟩
  split at reshaped
  · cases reshaped
    rfl
  · cases reshaped

variable (tended : memory.Tended handles) (given : inputs ⊆ handles)
include tended

/-- A result is written over a handle that asks for the same elements. -/
theorem writeOver_gives {target : Value} {mismatch : OpError} (member : target ∈ handles)
    (normalized : result.Normalized) : memory.Gives handles (writeOver target result mismatch) := by
  refine Ends.after rfl ?_
  split
  · rename_i same
    simp only [Bool.and_eq_true, decide_eq_true_eq] at same
    rcases same with ⟨⟨_, element⟩, size⟩
    have stored : ∀ x ∈ result.data, target.element.Stores x := by
      rw [element]
      exact normalized
    rcases tended.written member size.symm stored with ⟨sizes, containers, still⟩
    refine ⟨sizes, containers, still.mono ?_⟩
    exact List.cons_subset.mpr ⟨member, List.Subset.refl handles⟩
  · exact rfl

/-- A result is put into a handle that is left over, or into a new buffer. -/
theorem placeInto_gives (spared : ∀ value ∈ spare, value ∈ handles) (normalized : result.Normalized)
    (sized : result.shape.prod = result.data.size) :
    memory.Gives handles (placeInto spare result) := by
  unfold placeInto
  cases spare with
  | none => exact tended.store sized normalized
  | some target =>
    dsimp only
    split
    · exact writeOver_gives tended (spared target rfl) normalized
    · exact tended.store sized normalized

include given

/-- What an operation of the table computes from handles is as its form asks for. -/
theorem computed_of_tended (computed : op.compute (inputs.map memory.tensor) = Except.ok result) :
    result.Normalized ∧ result.shape.prod = result.data.size := by
  have backs : ∀ operand ∈ inputs.map memory.tensor,
      operand.Normalized ∧ operand.shape.prod = operand.data.size := by
    intro operand member
    rcases List.mem_map.mp member with ⟨input, listed, rfl⟩
    exact ⟨(tended.backs input (given listed)).normalized, (tended.backs input (given listed)).sized⟩
  exact ⟨compute_normalized (fun operand member => (backs operand member).1) computed,
    compute_sized (fun operand member => (backs operand member).2) computed⟩

theorem place_gives (computed : op.compute (inputs.map memory.tensor) = Except.ok result) :
    memory.Gives handles (op.place inputs result) := by
  rcases computed_of_tended tended given computed with ⟨normalized, sized⟩
  have viewed : ∀ input ∈ inputs, result.data = memory.contents input →
      memory.Tended ({ input with shape := result.shape } :: handles) := by
    intro input member same
    exact tended.view (given member) (same ▸ sized)
  cases op with
  | elementwise function target =>
    cases target with
    | none => exact tended.store sized normalized
    | some position =>
      refine Ends.ofChecked rfl fun target found => ?_
      rw [Checked.orFault_eq_ok_iff] at found
      exact writeOver_gives tended (given (List.mem_of_getElem? found)) normalized
  | reshape shape =>
    cases inputs with
    | nil => cases computed
    | cons input rest =>
      exact ⟨.refl memory, rfl, viewed input List.mem_cons_self (data_of_reshape computed)⟩
  | view =>
    cases inputs with
    | nil => cases computed
    | cons input rest =>
      cases computed
      exact ⟨.refl memory, rfl, viewed input List.mem_cons_self rfl⟩
  | _ => exact tended.store sized normalized

/-- To perform an operation of the table makes a buffer, a view or a write of its result, or fails
before that. -/
theorem perform_yields (table : ∀ function, op ≠ .host function) :
    memory.Yields handles (op.perform inputs) :=
  perform_ends_of rfl (fun _ _ _ computed => place_gives tended given computed)
    fun function same => absurd same (table function)

theorem performPlanned_yields (table : ∀ function, op ≠ .host function)
    (spared : ∀ value ∈ spare, value ∈ handles) :
    memory.Yields handles (op.performPlanned inputs spare) := by
  refine performPlanned_ends_of rfl ?_ (perform_yields tended given table)
  intro function _ result computed
  rcases computed_of_tended tended given computed with ⟨normalized, sized⟩
  exact placeInto_gives tended spared normalized sized

end Op

end ArrayGraph
