import ArrayGraph.Proofs.Run.Buffers
import ArrayGraph.Proofs.Run.Session

/-!
# What is done with values at hand

Values are made, seen under other shapes, copied, written, put into containers and taken out again, and
operations are performed on them as they stand or as planned execution does, which may use the buffer
of a value that is given away. Each of these may fail, and then everything goes on with what there was.

Whatever order these things are done in, the values at hand and in containers and the buffers below
them are tended: one instruction keeps that, and so does a list of them. So no write through one handle
can make another one read past the end of its buffer, or find elements of another type there.
-/

namespace ArrayGraph

variable {α : Type}

section Containers

variable {memory : Memory α} {held : List Value} {value other : Value} {id : ContainerId}
  {content : Option Value}

open Memory

/-- The values in containers. -/
def Memory.shared (memory : Memory α) : List Value :=
  memory.containers.toList.filterMap (·.value)

theorem Memory.mem_shared : value ∈ memory.shared ↔
    ∃ container ∈ memory.containers, container.value = some value := by
  simp [shared, List.mem_filterMap]

theorem Memory.mem_shared_of_container (found : (memory.container id).value = some value) :
    value ∈ memory.shared := by
  rw [Memory.container] at found
  cases known : memory.containers[id.index]? with
  | none =>
    rw [known] at found
    cases found
  | some container =>
    rw [known] at found
    exact mem_shared.mpr ⟨container, Array.mem_of_getElem? known, found⟩

/-- A container that is given a value holds that, and the others hold what they held. -/
theorem Memory.shared_setContainer (member : value ∈ (memory.setContainer id content).shared) :
    content = some value ∨ value ∈ memory.shared := by
  rcases mem_shared.mp member with ⟨container, listed, found⟩
  rcases Array.mem_iff_getElem?.mp listed with ⟨index, listed⟩
  simp only [setContainer, Array.getElem?_modify] at listed
  split at listed
  · rcases Option.map_eq_some_iff.mp listed with ⟨before, _, rfl⟩
    exact Or.inl found
  · exact Or.inr (mem_shared.mpr ⟨container, Array.mem_of_getElem? listed, found⟩)

variable [Arithmetic α]

/-- What comes of an action on a memory to which someone has handles besides those in containers. -/
structure Memory.Moves (memory : Memory α) (held outputs : List Value) (after : Memory α) : Prop where
  sizes : memory.KeepsSizes after
  tended : after.Tended (outputs ++ (held ++ after.shared))

/-- The action moves a memory on, or it fails and leaves the memory as it was. -/
def Memory.Lasts {ε : Type} (memory : Memory α) (held : List Value) (action : Action α ε (List Value)) :
    Prop :=
  Ends action memory (memory.Moves held) (· = memory)

variable {ε δ : Type} {outputs : List Value}

theorem Memory.Moves.idle (tended : memory.Tended (held ++ memory.shared))
    (subset : outputs ⊆ held) : memory.Moves held outputs memory where
  sizes := .refl memory
  tended := tended.mono (List.append_subset.mpr
    ⟨fun _ member => List.mem_append_left _ (subset member), List.Subset.refl _⟩)

theorem Memory.Yields.lasts {action : Action α ε (List Value)}
    (yields : memory.Yields (held ++ memory.shared) action) : memory.Lasts held action := by
  refine Ends.imp yields ?_ fun _ unchanged => unchanged
  rintro outputs after ⟨sizes, containers, tended⟩
  have same : after.shared = memory.shared := by rw [shared, shared, containers]
  exact ⟨sizes, same ▸ tended⟩

theorem Memory.Gives.lasts {action : Action α ε Value}
    (gives : memory.Gives (held ++ memory.shared) action) :
    memory.Lasts held (do pure [← action]) :=
  Yields.lasts (Ends.bind gives fun _ _ given => given)

theorem Memory.Writes.lasts {action : Action α ε Unit}
    (writes : memory.Writes (held ++ memory.shared) action) :
    memory.Lasts held (do action; pure []) :=
  Yields.lasts (Ends.bind writes fun _ _ written => written)

theorem Memory.Lasts.mapError {action : Action α ε (List Value)} (lasts : memory.Lasts held action)
    (f : ε → δ) : memory.Lasts held (action.mapError f) := by
  have ends : Ends action memory (memory.Moves held) (· = memory) := lasts
  unfold Lasts Ends Action.mapError
  cases ran : action memory with
  | ok outputs after => exact ends.of_ok ran
  | error failure after => exact ends.of_error ran

/-- To put values that are there into containers, or to take values out of them, leaves every buffer as
it was. -/
theorem Memory.Tended.rearrange {after : Memory α} (tended : memory.Tended (held ++ memory.shared))
    (buffers : after.buffers = memory.buffers)
    (there : ∀ value ∈ after.shared, value ∈ held ++ memory.shared) : memory.Moves held [] after where
  sizes := ⟨Nat.le_of_eq (by rw [buffers]), fun buffer _ => by rw [read, read, buffers]⟩
  tended := (tended.mono (List.append_subset.mpr
    ⟨List.subset_append_left _ _, there⟩)).of_buffers buffers

variable (tended : memory.Tended (held ++ memory.shared))
include tended

theorem Container.getValue_gives (borrow : Bool) :
    memory.Gives (held ++ memory.shared) (Container.getValue id borrow) := by
  unfold getValue
  refine Ends.after rfl ?_
  dsimp only
  split
  · rename_i value found
    have member : value ∈ held ++ memory.shared :=
      List.mem_append_right _ (mem_shared_of_container found)
    split
    · exact ⟨.refl memory, rfl, tended.mono (List.cons_subset.mpr ⟨member, List.Subset.refl _⟩)⟩
    · exact tended.copy member
  · exact rfl

theorem Container.create_lasts (member : value ∈ held) (name : String) :
    memory.Lasts held (do discard (Container.create name value : Action α ε ContainerId); pure []) := by
  refine tended.rearrange rfl ?_
  intro other listed
  rcases mem_shared.mp listed with ⟨container, listed, found⟩
  rcases Array.mem_push.mp listed with listed | rfl
  · exact List.mem_append_right _ (mem_shared.mpr ⟨container, listed, found⟩)
  · cases found
    exact List.mem_append_left _ member

theorem Container.setValue_lasts (member : value ∈ held) (borrow : Bool) :
    memory.Lasts held (do Container.setValue id value borrow; pure []) := by
  have listed : value ∈ held ++ memory.shared := List.mem_append_left _ member
  have assigned : ∀ source : Action α ContainerError Value,
      memory.Gives (held ++ memory.shared) source →
        Ends (do let kept ← source; modify (·.setContainer id (some kept))) memory
          (fun _ after => memory.Moves held [] after) (· = memory) := by
    intro source gives
    refine Ends.bind gives ?_
    rintro kept after ⟨sizes, containers, still⟩
    have same : after.shared = memory.shared := by rw [shared, shared, containers]
    have still : after.Tended ((kept :: held) ++ after.shared) := same ▸ still
    have moves : after.Moves (kept :: held) [] (after.setContainer id (some kept)) := by
      refine still.rearrange rfl fun other listed => ?_
      rcases shared_setContainer listed with new | listed
      · cases new
        exact List.mem_cons_self
      · exact List.mem_append_right _ listed
    exact ⟨sizes.trans moves.sizes, moves.tended.mono (List.subset_cons_self _ _)⟩
  have stored : Ends (Container.setValue id value borrow) memory
      (fun _ after => memory.Moves held [] after) (· = memory) := by
    unfold setValue
    refine Ends.after rfl ?_
    dsimp only
    split
    · exact rfl
    split
    · exact rfl
    split
    · refine assigned (pure value) ⟨.refl memory, rfl, tended.mono ?_⟩
      exact List.cons_subset.mpr ⟨listed, List.Subset.refl _⟩
    · exact assigned value.copy (tended.copy listed)
  exact Ends.bind stored fun _ _ moves => moves

theorem Container.release_lasts :
    memory.Lasts held (do (Container.release id : Action α ε Unit); pure []) := by
  refine tended.rearrange rfl fun value listed => ?_
  rcases shared_setContainer listed with impossible | listed
  · cases impossible
  · exact List.mem_append_right _ listed

/-- Whatever is done for a task, it makes a buffer, a handle or a write, or it fails before that. -/
theorem Task.lasts (task : Task α) {values : List Value} (given : values ⊆ held) :
    memory.Lasts held (task.perform values) := by
  have idle : memory.Lasts held (pure [] : Action α SessionError (List Value)) :=
    .idle tended (List.nil_subset _)
  have taken : ∀ value rest, values = value :: rest → value ∈ held := by
    rintro value rest rfl
    exact given List.mem_cons_self
  have listed : ∀ value rest, values = value :: rest → value ∈ held ++ memory.shared :=
    fun value rest same => List.mem_append_left _ (taken value rest same)
  cases task with
  | create element shape data => exact (tended.create).lasts.mapError SessionError.op
  | keep => exact .idle tended given
  | fetch container borrow =>
    exact (Container.getValue_gives tended borrow).lasts.mapError SessionError.container
  | release container => exact Container.release_lasts tended
  | copy =>
    cases values with
    | nil => exact idle
    | cons value rest => exact (tended.copy (listed value rest rfl)).lasts
  | cast element =>
    cases values with
    | nil => exact idle
    | cons value rest => exact (tended.cast (listed value rest rfl)).lasts
  | view shape =>
    cases values with
    | nil => exact idle
    | cons value rest => exact (tended.viewed (listed value rest rfl)).lasts.mapError SessionError.op
  | set index number =>
    cases values with
    | nil => exact idle
    | cons value rest =>
      exact (tended.set (listed value rest rfl) index number).lasts.mapError SessionError.op
  | overwrite data =>
    cases values with
    | nil => exact idle
    | cons value rest =>
      exact (tended.overwrite (listed value rest rfl)).lasts.mapError SessionError.op
  | share name =>
    cases values with
    | nil => exact idle
    | cons value rest => exact Container.create_lasts tended (taken value rest rfl) name
  | assign container borrow =>
    cases values with
    | nil => exact idle
    | cons value rest =>
      exact (Container.setValue_lasts tended (taken value rest rfl) borrow).mapError
        SessionError.container

end Containers

/-- What can be done with values at hand, which are named by their positions. A position at which there is
nothing is passed over. -/
inductive Instruction (α : Type) where
  | scalar (element : ElementType) (number : α)
  | vector (data : Array α)
  | filled (element : ElementType) (shape : List Nat) (number : α)
  | work (task : Task α) (operands : List Nat)
  /-- Performs an operation as it stands. -/
  | perform (op : Op α) (operands : List Nat)
  /-- Performs an operation as planned execution does. The handle at the position `leftover` is given
  away with it, and its buffer may be used again if that was the last handle on it. -/
  | plan (op : Op α) (operands : List Nat) (leftover : Option Nat)
  | drop (position : Nat)

/-- Whether only operations of the table are performed. -/
def Instruction.InTable : Instruction α → Prop
  | .perform op _ | .plan op _ _ => ∀ function, op ≠ .host function
  | _ => True

/-- A memory and the values at hand. -/
structure Desk (α : Type) where
  memory : Memory α
  held : List Value

namespace Desk

/-- Nothing at hand and nothing stored. -/
def empty : Desk α := ⟨Memory.empty, []⟩

/-- All handles on buffers: the values at hand and those in containers. -/
def handles (desk : Desk α) : List Value := desk.held ++ desk.memory.shared

/-- The values at some positions. -/
def values (desk : Desk α) (positions : List Nat) : List Value :=
  positions.filterMap (desk.held[·]?)

/-- The values at hand without the one that is given away. -/
def without (desk : Desk α) (leftover : Option Nat) : List Value :=
  match leftover with
  | some position => desk.held.eraseIdx position
  | none => desk.held

/-- The value that is given away, if nobody else holds its buffer. -/
def spare? (desk : Desk α) (operands : List Nat) (leftover : Option Nat) : Option Value :=
  (leftover.bind (desk.held[·]?)).filter fun value =>
    (desk.without leftover ++ desk.memory.shared ++ desk.values operands).all (·.buffer ≠ value.buffer)

/-- Does something. What comes of it is at hand from then on. -/
def carry (desk : Desk α) (held : List Value) (action : Action α SessionError (List Value)) :
    Checked SessionError (List Value) × Desk α :=
  match action desk.memory with
  | .ok outputs memory => (Except.ok outputs, ⟨memory, held ++ outputs⟩)
  | .error failure memory => (Except.error failure, ⟨memory, held⟩)

variable [Arithmetic α]

/-- Follows an instruction. -/
def step (desk : Desk α) : Instruction α → Checked SessionError (List Value) × Desk α
  | .scalar element number => desk.carry desk.held do pure [← Value.scalar element number]
  | .vector data => desk.carry desk.held do pure [← Value.vector data]
  | .filled element shape number => desk.carry desk.held do pure [← Value.filled element shape number]
  | .work task operands => desk.carry desk.held (task.perform (desk.values operands))
  | .perform op operands =>
    desk.carry desk.held (Action.mapError SessionError.op (op.perform (desk.values operands)))
  | .plan op operands leftover => desk.carry (desk.without leftover)
      (Action.mapError SessionError.op
        (op.performPlanned (desk.values operands) (desk.spare? operands leftover)))
  | .drop position => (Except.ok [], ⟨desk.memory, desk.held.eraseIdx position⟩)

/-- Follows instructions one after the other, whether they fail or not. -/
def after (desk : Desk α) (instructions : List (Instruction α)) : Desk α :=
  instructions.foldl (fun desk instruction => (desk.step instruction).2) desk

/-- Handles and buffers as they should be. -/
structure Sound (desk : Desk α) : Prop where
  known : ∀ value ∈ desk.handles, value.buffer.index < desk.memory.buffers.size
  sized : ∀ value ∈ desk.handles, value.shape.prod = (desk.memory.contents value).size
  /-- Handles on one buffer have one element type. -/
  agree : ∀ left ∈ desk.handles, ∀ right ∈ desk.handles, left.sharesBuffer right →
    left.element = right.element
  /-- What is stored would not change if it were stored again. -/
  settled : ∀ value ∈ desk.handles, ∀ x ∈ desk.memory.contents value, value.element.normalize x = x

variable {desk : Desk α} {instruction : Instruction α}

omit [Arithmetic α] in
theorem values_subset (positions : List Nat) : desk.values positions ⊆ desk.held := by
  intro value member
  rcases List.mem_filterMap.mp member with ⟨position, _, found⟩
  exact List.mem_of_getElem? found

omit [Arithmetic α] in
theorem without_subset (leftover : Option Nat) : desk.without leftover ⊆ desk.held := by
  cases leftover with
  | none => exact List.Subset.refl _
  | some position => exact (List.eraseIdx_sublist _ _).subset

omit [Arithmetic α] in
theorem mem_of_spare? {operands : List Nat} {leftover : Option Nat} {value : Value}
    (spared : value ∈ desk.spare? operands leftover) : value ∈ desk.held := by
  rcases Option.filter_eq_some_iff.mp spared with ⟨found, _⟩
  rcases Option.bind_eq_some_iff.mp found with ⟨position, _, found⟩
  exact List.mem_of_getElem? found

theorem tended_empty : (empty : Desk α).memory.Tended (empty : Desk α).handles :=
  ⟨by simp [handles, empty, Memory.shared, Memory.empty],
    by simp [handles, empty, Memory.shared, Memory.empty]⟩

/-- What one instruction keeps. -/
structure Kept (desk : Desk α) (result : Checked SessionError (List Value) × Desk α) : Prop where
  sizes : desk.memory.KeepsSizes result.2.memory
  tended : result.2.memory.Tended result.2.handles
  unchanged : ∀ failure, result.1 = Except.error failure → result.2.memory = desk.memory

/-- A successful action moves the memory on, and a failing one leaves it. Fewer handles need no more
care. -/
theorem kept_carry {held : List Value} {action : Action α SessionError (List Value)}
    (tended : desk.memory.Tended desk.handles) (subset : held ⊆ desk.held)
    (lasts : desk.memory.Lasts desk.held action) : desk.Kept (desk.carry held action) := by
  have ends : Ends action desk.memory (desk.memory.Moves desk.held) (· = desk.memory) := lasts
  unfold carry
  cases ran : action desk.memory with
  | ok outputs memory =>
    have moves := ends.of_ok ran
    refine ⟨moves.sizes, moves.tended.mono ?_, fun failure failed => by cases failed⟩
    intro value member
    simp only [handles, List.mem_append] at member ⊢
    rcases member with (kept | output) | shared
    · exact Or.inr (Or.inl (subset kept))
    · exact Or.inl output
    · exact Or.inr (Or.inr shared)
  | error failure memory =>
    have same : memory = desk.memory := ends.of_error ran
    subst same
    refine ⟨.refl _, tended.mono ?_, fun _ _ => rfl⟩
    exact List.append_subset.mpr ⟨fun value member => List.mem_append_left _ (subset member),
      List.subset_append_right _ _⟩

/-- What an instruction keeps if handles and buffers have been tended so far. -/
theorem kept_step (tended : desk.memory.Tended desk.handles) (table : instruction.InTable) :
    desk.Kept (desk.step instruction) := by
  have all : ∀ {held : List Value}, held ⊆ desk.held → held ⊆ desk.handles :=
    fun subset value member => List.mem_append_left _ (subset member)
  have whole := List.Subset.refl desk.held
  cases instruction with
  | scalar element number => exact kept_carry tended whole (tended.scalar number).lasts
  | vector data => exact kept_carry tended whole tended.vector.lasts
  | filled element shape number => exact kept_carry tended whole (tended.filled number).lasts
  | work task operands => exact kept_carry tended whole (Task.lasts tended task (values_subset operands))
  | perform op operands =>
    refine kept_carry tended whole (Memory.Lasts.mapError ?_ SessionError.op)
    exact (Op.perform_yields tended (all (values_subset operands)) table).lasts
  | plan op operands leftover =>
    refine kept_carry tended (without_subset leftover) (Memory.Lasts.mapError ?_ SessionError.op)
    refine (Op.performPlanned_yields tended (all (values_subset operands)) table ?_).lasts
    exact fun value spared => List.mem_append_left _ (mem_of_spare? spared)
  | drop position =>
    refine ⟨.refl _, tended.mono ?_, fun failure failed => by cases failed⟩
    exact List.append_subset.mpr ⟨all (List.eraseIdx_sublist _ _).subset, List.subset_append_right _ _⟩

/-- What a list of instructions keeps. -/
theorem kept_after {instructions : List (Instruction α)} (tended : desk.memory.Tended desk.handles)
    (table : ∀ instruction ∈ instructions, instruction.InTable) :
    desk.memory.KeepsSizes (desk.after instructions).memory ∧
      (desk.after instructions).memory.Tended (desk.after instructions).handles := by
  induction instructions generalizing desk with
  | nil => exact ⟨.refl _, tended⟩
  | cons instruction rest ih =>
    have kept := kept_step tended (table instruction List.mem_cons_self)
    rcases ih kept.tended fun other member => table other (List.mem_cons_of_mem _ member) with
      ⟨sizes, still⟩
    exact ⟨kept.sizes.trans sizes, still⟩

/-- An idempotent normalization leaves what is stored as it is. -/
theorem sound_of_tended (idempotent : ∀ (element : ElementType) (x : α),
    element.normalize (element.normalize x) = element.normalize x)
    (tended : desk.memory.Tended desk.handles) : desk.Sound where
  known value member := (tended.backs value member).known
  sized value member := (tended.backs value member).sized
  agree left member right member' shares :=
    tended.agree left member right member' (of_decide_eq_true shares)
  settled value member x found := by
    rcases (tended.backs value member).normalized x found with ⟨y, rfl⟩
    exact idempotent _ y

/-- Whatever is done with values, whether it succeeds or fails: every handle asks for as many elements as
its buffer holds and will always hold, handles on one buffer have one element type, and what is stored
is stored as that type asks for. So what fails has changed no buffer, and a scalar function that is
applied to handles finds an element of each at every position of its result. -/
theorem buffers_kept (idempotent : ∀ (element : ElementType) (x : α),
      element.normalize (element.normalize x) = element.normalize x)
    (instructions : List (Instruction α))
    (table : ∀ instruction ∈ instructions, instruction.InTable) :
    let desk := empty.after instructions
    desk.Sound ∧
      (∀ more : List (Instruction α), (∀ instruction ∈ more, instruction.InTable) →
        desk.memory.KeepsSizes (desk.after more).memory) ∧
      (∀ instruction : Instruction α, instruction.InTable → ∀ failure,
        (desk.step instruction).1 = Except.error failure →
          (desk.step instruction).2.memory = desk.memory) ∧
      ∀ (function : ScalarFunction) (name : String) (operands : List Value), operands ⊆ desk.handles →
        (∀ shape, ScalarFunction.commonShape name (operands.map desk.memory.tensor) = Except.ok shape →
          ∀ index < shape.prod, ∀ operand ∈ operands,
            ∃ x, ScalarFunction.operandAt (desk.memory.tensor operand) index = Except.ok x) ∧
        ∀ position, function.compute name (operands.map desk.memory.tensor) ≠
          Checked.abort (.noSuchElement position) := by
  intro desk
  have tended : desk.memory.Tended desk.handles := (kept_after tended_empty table).2
  refine ⟨sound_of_tended idempotent tended, fun more table' => (kept_after tended table').1,
    fun instruction table' => (kept_step tended table').unchanged, ?_⟩
  intro function name operands given
  have sized : ∀ operand ∈ operands.map desk.memory.tensor,
      operand.shape.prod = operand.data.size := by
    intro operand member
    rcases List.mem_map.mp member with ⟨value, listed, rfl⟩
    exact (tended.backs value (given listed)).sized
  refine ⟨fun shape agreed index inside operand member => ?_, function.compute_ne_noSuchElement sized⟩
  exact ScalarFunction.exists_operandAt sized agreed inside (List.mem_map_of_mem member)

/-- A vector, a matrix on its buffer and whole numbers. The sum of vector and matrix fails, and the sum
with the whole numbers goes over the vector. These are negated twice, the second time into the buffer of
the first. -/
def vectorAndMatrix : List (Instruction ℚ) :=
  [.vector #[1, 2, 3, 4], .work (.view [2, 2]) [0], .work (.create .int64 [4] #[5/2, 1, 1, 1]) [],
    .perform (.elementwise .add none) [0, 1], .perform (.elementwise .add (some 0)) [0, 2],
    .plan (.elementwise .neg none) [2] none, .plan (.elementwise .neg none) [2] (some 4)]

/-- Adding the vector and the matrix on one buffer. -/
def mismatchedSum : Instruction ℚ := .perform (.elementwise .add none) [0, 1]

/-- Three handles are on the first buffer, and the sum would fail again. -/
theorem buffers_kept_vectorAndMatrix :
    (empty.after vectorAndMatrix).held.map (·.buffer) = [⟨0⟩, ⟨0⟩, ⟨1⟩, ⟨0⟩, ⟨2⟩] ∧
      (empty.after vectorAndMatrix).Sound ∧
      ((empty.after vectorAndMatrix).step mismatchedSum).1 =
        Except.error (Failure.error (.op (.incompatibleShapes "add" [[4], [2, 2]]))) ∧
      ((empty.after vectorAndMatrix).step mismatchedSum).2.memory =
        (empty.after vectorAndMatrix).memory := by
  have idempotent : ∀ (element : ElementType) (x : ℚ),
      element.normalize (element.normalize x) = element.normalize x := by
    intro element x
    cases element <;> simp [ElementType.normalize, Arithmetic.trunc]
  have table : ∀ instruction ∈ mismatchedSum :: vectorAndMatrix, instruction.InTable := by
    simp [mismatchedSum, vectorAndMatrix, Instruction.InTable]
  have failed : ((empty.after vectorAndMatrix).step mismatchedSum).1 =
      Except.error (Failure.error (.op (.incompatibleShapes "add" [[4], [2, 2]]))) := by
    cbv
  rcases buffers_kept idempotent vectorAndMatrix
      (fun instruction member => table instruction (List.mem_cons_of_mem _ member)) with
    ⟨sound, _, unchanged, _⟩
  exact ⟨by cbv, sound, failed, unchanged mismatchedSum (table _ List.mem_cons_self) _ failed⟩

end Desk

end ArrayGraph
