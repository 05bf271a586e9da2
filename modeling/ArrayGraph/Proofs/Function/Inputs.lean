import ArrayGraph.Proofs.Dataflow.Basic
import ArrayGraph.Function.Call
import ArrayGraph.Proofs.Perform
import ArrayGraph.Proofs.Run.Primitives

/-!
# The inputs of a call

A call gathers one value for each input: an argument, or a cast copy of it, or the value in a
container. Then every input that may be overwritten is copied if another input has its buffer. So in
the end such an input has a buffer to itself, which is either new or the buffer it came with. Of
several inputs that come with one buffer the last one keeps it.
-/

namespace ArrayGraph

variable {α : Type}

/-- An argument has a form that the input takes. -/
def Argument.Accepts (argument : Argument) (value : Value) : Prop :=
  argument.type.acceptsShape value.shape ∧ (value.element = argument.type.element ∨
    argument.strict = false ∧ value.element.castsSafelyTo argument.type.element)

/-- The array that an argument stands for once it has been brought to the type of the input. -/
def Argument.read [Arithmetic α] (argument : Argument) (tensor : Tensor α) : Tensor α :=
  if tensor.element = argument.type.element then tensor
  else
    ⟨argument.type.element, tensor.shape, tensor.data.map argument.type.element.normalize⟩

namespace Signature

variable {signature : Signature} {memory middle after : Memory α} {arguments : List Value}
  {index : Nat} {value : Value}

/-- The handle that a call comes with for an input: an argument, or what a container holds. -/
def handle? (signature : Signature) (memory : Memory α) (arguments : List Value) (index : Nat) :
    Option Value :=
  if index < signature.arguments.length then arguments[index]?
  else signature.shared[index - signature.arguments.length]?.bind fun slot =>
    (memory.container slot.container).value

/-- The handle of an input is taken as it is, without a cast. -/
def Intact (signature : Signature) (index : Nat) (value : Value) : Prop :=
  ∀ argument, signature.arguments[index]? = some argument → value.element = argument.type.element

/-- The array that a handle stands for as an input. -/
def read [Arithmetic α] (signature : Signature) (index : Nat) (tensor : Tensor α) : Tensor α :=
  match signature.arguments[index]? with
  | some argument => argument.read tensor
  | none => tensor

/-- A call comes with what a signature asks for. -/
structure Accepts (signature : Signature) (memory : Memory α) (arguments : List Value) : Prop where
  count : arguments.length = signature.arguments.length
  argument : ∀ (index : Nat) argument value, signature.arguments[index]? = some argument →
    arguments[index]? = some value → argument.Accepts value
  container : ∀ slot ∈ signature.shared, (memory.container slot.container).value ≠ none

theorem handle?_argument (inside : index < signature.arguments.length) :
    signature.handle? memory arguments index = arguments[index]? := if_pos inside

theorem handle?_shared : signature.handle? memory arguments (signature.arguments.length + index) =
    signature.shared[index]?.bind fun slot => (memory.container slot.container).value := by
  rw [handle?, if_neg (by omega), Nat.add_sub_cancel_left]

theorem length_inputVars :
    signature.inputVars.length = signature.arguments.length + signature.shared.length := by
  simp [inputVars]

variable [Arithmetic α]

/-- What becomes of a handle: it stays as it is, or a cast copy in a new buffer takes its place. -/
structure Takes (signature : Signature) (memory : Memory α) (index : Nat) (value taken : Value)
    (after : Memory α) : Prop where
  known : after.Knows taken
  tensor : after.tensor taken = signature.read index (memory.tensor value)
  accepts : ∀ argument, signature.arguments[index]? = some argument → argument.Accepts value
  intact : signature.Intact index value → taken = value
  buffer : taken.buffer = value.buffer ∨ memory.buffers.size ≤ taken.buffer.index

theorem Takes.later {taken : Value} (takes : signature.Takes memory index value taken middle)
    (keeps : middle.Keeps after) : signature.Takes memory index value taken after :=
  { takes with
    known := keeps.knows takes.known
    tensor := (keeps.tensor takes.known).trans takes.tensor }

/-- Values have been gathered for the first inputs. -/
structure Gathers (signature : Signature) (memory : Memory α) (arguments gathered : List Value)
    (after : Memory α) : Prop where
  keeps : memory.Keeps after
  origin : ∀ (index : Nat) taken, gathered[index]? = some taken → ∃ value,
    signature.handle? memory arguments index = some value ∧
      signature.Takes memory index value taken after

theorem gathers_nil (memory : Memory α) (arguments : List Value) :
    signature.Gathers memory arguments [] memory :=
  ⟨Memory.Keeps.refl memory, by simp⟩

theorem Gathers.append {gathered : List Value} {taken : Value}
    (gathers : signature.Gathers memory arguments gathered middle) (keeps : middle.Keeps after)
    (found : signature.handle? memory arguments gathered.length = some value)
    (takes : signature.Takes memory gathered.length value taken after) :
    signature.Gathers memory arguments (gathered ++ [taken]) after where
  keeps := gathers.keeps.trans keeps
  origin index other listed := by
    rcases Nat.lt_trichotomy index gathered.length with before | rfl | beyond
    · rw [List.getElem?_append_left before] at listed
      rcases gathers.origin index other listed with ⟨value', found', takes'⟩
      exact ⟨value', found', takes'.later keeps⟩
    · rw [List.getElem?_concat_length] at listed
      cases listed
      exact ⟨value, found, takes⟩
    · rw [List.getElem?_eq_none (by simp; omega)] at listed
      cases listed

/-- If there is a value for every input then the call comes with what the signature asks for. -/
theorem Gathers.accepts {gathered : List Value}
    (gathers : signature.Gathers memory arguments gathered after)
    (length : gathered.length = signature.inputVars.length)
    (count : arguments.length = signature.arguments.length) :
    signature.Accepts memory arguments := by
  rw [length_inputVars] at length
  refine ⟨count, ?_, ?_⟩
  · intro index argument value listed given
    have inside := (List.getElem?_eq_some_iff.mp listed).1
    rcases gathers.origin index _ (List.getElem?_eq_getElem (by omega)) with ⟨other, found, takes⟩
    rw [handle?_argument inside, given] at found
    cases found
    exact takes.accepts argument listed
  · intro slot member
    rcases List.mem_iff_getElem?.mp member with ⟨position, listed⟩
    have inside := (List.getElem?_eq_some_iff.mp listed).1
    rcases gathers.origin (signature.arguments.length + position) _
      (List.getElem?_eq_getElem (by omega)) with ⟨value, found, _⟩
    rw [handle?_shared, listed] at found
    exact fun released => by simp [released] at found

end Signature

namespace Argument

variable [Arithmetic α] {argument : Argument} {memory middle : Memory α} {value : Value}

theorem coerce_ends {index : Nat} : Ends (argument.coerce index value : Action α FunctionError Value)
    memory
    (fun taken after => memory.Keeps after ∧ argument.Accepts value ∧
      (value.element = argument.type.element ∧ taken = value ∧ after = memory ∨
        value.element ≠ argument.type.element ∧
          taken = ⟨argument.type.element, value.shape, ⟨memory.buffers.size⟩⟩ ∧
          after = (memory.allocate
            ((memory.contents value).map argument.type.element.normalize)).2))
    (fun after => memory.Keeps after ∧ ¬argument.Accepts value) := by
  unfold coerce
  split
  · rename_i refused
    exact ⟨Memory.Keeps.refl memory, fun accepts => by simp [accepts.1] at refused⟩
  · rename_i shape
    have fits : argument.type.acceptsShape value.shape = true := by simpa using shape
    split
    · rename_i same
      exact ⟨Memory.Keeps.refl memory, ⟨fits, Or.inl same⟩, Or.inl ⟨same, rfl, rfl⟩⟩
    · rename_i different
      split
      · rename_i castable
        have accepts : argument.Accepts value := ⟨fits, Or.inr (by simpa using castable)⟩
        exact ⟨memory.keeps_allocate _, accepts, Or.inr ⟨different, rfl, rfl⟩⟩
      · rename_i refused
        refine ⟨Memory.Keeps.refl memory, ?_⟩
        rintro ⟨_, same | castable⟩
        · exact different same
        · exact refused (by simpa using castable)

end Argument

/-- An argument that has been brought to the type of its input. -/
theorem takes_of_coerce {signature : Signature} {memory middle after : Memory α} {argument : Argument}
    {value taken : Value} {index : Nat} [Arithmetic α]
    (listed : signature.arguments[index]? = some argument) (known : memory.Knows value)
    (keeps : memory.Keeps middle) (accepts : argument.Accepts value)
    (coerced : value.element = argument.type.element ∧ taken = value ∧ after = middle ∨
      value.element ≠ argument.type.element ∧
        taken = ⟨argument.type.element, value.shape, ⟨middle.buffers.size⟩⟩ ∧
        after = (middle.allocate
          ((middle.contents value).map argument.type.element.normalize)).2) :
    signature.Takes memory index value taken after := by
  have read : signature.read index (memory.tensor value) = argument.read (memory.tensor value) := by
    rw [Signature.read, listed]
  have accepted : ∀ other, signature.arguments[index]? = some other → other.Accepts value := by
    intro other listed'
    rw [listed] at listed'
    cases listed'
    exact accepts
  have sameTensor := keeps.tensor known
  rcases coerced with ⟨same, rfl, rfl⟩ | ⟨different, rfl, rfl⟩
  · refine ⟨keeps.knows known, ?_, accepted, fun _ => rfl, Or.inl rfl⟩
    rw [read, sameTensor]
    exact (if_pos same).symm
  · refine ⟨by simp [Memory.Knows], ?_, accepted,
      fun intact => absurd (intact argument listed) different, Or.inr keeps.size⟩
    have sameData : middle.contents value = memory.contents value := congrArg Tensor.data sameTensor
    rw [read, sameData]
    exact (congrArg (Tensor.mk _ _) (middle.read_allocate_self _)).trans (if_neg different).symm

theorem Container.getValue_ends {container : ContainerId} {memory : Memory α} :
    Ends (getValue container true) memory
      (fun value after => after = memory ∧ (memory.container container).value = some value)
      (fun after => after = memory ∧ (memory.container container).value = none) := by
  unfold Ends
  cases held : (memory.container container).value with
  | none =>
    rw [getValue_of_none held]
    exact ⟨rfl, rfl⟩
  | some value =>
    rw [getValue_of_some held]
    exact ⟨rfl, rfl⟩

namespace Dataflow

variable {κ : Type} [DecidableEq κ] {items : List κ} {item : κ}

theorem positions_append_of_not_mem {more : List κ} (missing : item ∉ more) :
    positions (items ++ more) item = positions items item := by
  simp only [positions, List.zipIdx_append, List.filterMap_append]
  rw [List.append_right_eq_self, List.filterMap_eq_nil_iff]
  rintro ⟨other, index⟩ member
  have listed : other ∈ more := List.fst_mem_of_mem_zipIdx member
  exact if_neg (ne_of_mem_of_not_mem listed missing)

theorem positions_increasing : (positions items item).Pairwise (· < ·) := by
  have indices : items.zipIdx.Pairwise fun first second => first.2 < second.2 := by
    rw [List.pairwise_iff_getElem]
    intro first second _ _ before
    simpa using before
  refine indices.filterMap _ ?_
  rintro ⟨first, position⟩ ⟨second, position'⟩ before index kept index' kept'
  simp only [Option.ite_none_right_eq_some, Option.some.injEq] at kept kept'
  rw [← kept.2, ← kept'.2]
  exact before

end Dataflow

namespace Compilation

variable {β ε : Type} {state : Logged α}

theorem onMemory_ends {wrap : ε → FunctionError} {action : Action α ε β}
    {good : β → Memory α → Prop} {bad : Memory α → Prop} (ends : Ends action state.memory good bad) :
    Ends (onMemory wrap action) state (fun value final => good value final.memory)
      (fun final => bad final.memory) := by
  unfold Ends onMemory
  cases ran : action state.memory with
  | ok value memory => exact ends.of_ok ran
  | error failure memory => exact ends.of_error ran

end Compilation

namespace Function

variable {signature : Signature} {arguments : List Value} {state : Logged α}

section Gather

variable [Arithmetic α]

/-- The values that a call gathers before it copies any of them. -/
def gather (signature : Signature) (arguments : List Value) : Compilation α (List Value) := do
  if arguments.length ≠ signature.arguments.length then
    throw (Failure.error (.argumentCount signature.arguments.length arguments.length))
  let coerced ← ((signature.arguments.zip arguments).zipIdx).mapM
    fun ((argument, value), index) => Compilation.onMemory id (argument.coerce index value)
  let read ← signature.shared.mapM fun slot =>
    Compilation.onMemory FunctionError.container (Container.getValue slot.container true)
  pure (coerced ++ read)

theorem prepare_eq : (prepare signature arguments : Compilation α (List Value)) =
    gather signature arguments >>= fun gathered => separateInputs gathered signature.writable := by
  unfold prepare gather
  split <;> simp

/-- The arguments are brought to the types of the inputs. -/
theorem coerceAll_ends (known : ∀ value ∈ arguments, state.memory.Knows value)
    (count : arguments.length = signature.arguments.length) :
    Ends (((signature.arguments.zip arguments).zipIdx).mapM fun ((argument, value), index) =>
        Compilation.onMemory id (argument.coerce index value) : Compilation α (List Value)) state
      (fun gathered final => gathered.length = signature.arguments.length ∧
        signature.Gathers state.memory arguments gathered final.memory)
      (fun final => state.memory.Keeps final.memory ∧
        ¬signature.Accepts state.memory arguments) := by
  have step : ∀ done gathered (item : (Argument × Value) × Nat) rest (middle : Logged α),
      (signature.arguments.zip arguments).zipIdx = done ++ item :: rest →
        (gathered.length = done.length ∧
          signature.Gathers state.memory arguments gathered middle.memory) →
      Ends (Compilation.onMemory id (item.1.1.coerce item.2 item.1.2) : Compilation α Value) middle
        (fun taken final => (gathered ++ [taken]).length = (done ++ [item]).length ∧
          signature.Gathers state.memory arguments (gathered ++ [taken]) final.memory)
        (fun final => state.memory.Keeps final.memory ∧
          ¬signature.Accepts state.memory arguments) := by
    rintro done gathered ⟨⟨argument, value⟩, position⟩ rest middle split ⟨length, gathers⟩
    have here : ((signature.arguments.zip arguments).zipIdx)[done.length]? =
        some ((argument, value), position) := by simp [split]
    rw [List.getElem?_zipIdx, Option.map_eq_some_iff] at here
    rcases here with ⟨_, both, same⟩
    cases same
    rcases List.getElem?_zip_eq_some.mp both with ⟨listed, given⟩
    rw [← length] at listed given
    have inside := (List.getElem?_eq_some_iff.mp listed).1
    refine (Compilation.onMemory_ends Argument.coerce_ends).imp ?_ ?_
    · rintro taken final ⟨keeps, accepts, coerced⟩
      refine ⟨by simp [length], gathers.append keeps ((Signature.handle?_argument inside).trans given) ?_⟩
      exact takes_of_coerce listed (known value (List.mem_of_getElem? given)) gathers.keeps accepts
        coerced
    · rintro final ⟨keeps, refused⟩
      exact ⟨gathers.keeps.trans keeps, fun accepts =>
        refused (accepts.argument _ argument value listed given)⟩
  refine (Ends.mapM _ ⟨rfl, Signature.gathers_nil state.memory arguments⟩ step).imp ?_ ?_
  · rintro gathered final ⟨length, gathers⟩
    exact ⟨by simpa [count] using length, gathers⟩
  · exact fun _ refused => refused

/-- The values in the containers are read. -/
theorem readAll_ends {memory : Memory α} {coerced : List Value}
    (gathers : signature.Gathers memory arguments coerced state.memory)
    (count : coerced.length = signature.arguments.length)
    (known : ∀ slot ∈ signature.shared, ∀ value, (memory.container slot.container).value = some value →
      memory.Knows value) :
    Ends (signature.shared.mapM fun slot => Compilation.onMemory FunctionError.container
        (Container.getValue slot.container true) : Compilation α (List Value)) state
      (fun read final => (coerced ++ read).length = signature.inputVars.length ∧
        signature.Gathers memory arguments (coerced ++ read) final.memory)
      (fun final => memory.Keeps final.memory ∧ ¬signature.Accepts memory arguments) := by
  have step : ∀ done read slot rest (middle : Logged α), signature.shared = done ++ slot :: rest →
      (read.length = done.length ∧
        signature.Gathers memory arguments (coerced ++ read) middle.memory) →
      Ends (Compilation.onMemory FunctionError.container
          (Container.getValue slot.container true) : Compilation α Value) middle
        (fun value final => (read ++ [value]).length = (done ++ [slot]).length ∧
          signature.Gathers memory arguments (coerced ++ (read ++ [value])) final.memory)
        (fun final => memory.Keeps final.memory ∧ ¬signature.Accepts memory arguments) := by
    rintro done read slot rest middle split ⟨length, gathers⟩
    have member : slot ∈ signature.shared := by simp [split]
    have sameContainer : middle.memory.container slot.container = memory.container slot.container := by
      rw [Memory.container, Memory.container, gathers.keeps.containers]
    refine (Compilation.onMemory_ends Container.getValue_ends).imp ?_ ?_
    · rintro value final ⟨same, held⟩
      rw [sameContainer] at held
      have position : (coerced ++ read).length = signature.arguments.length + done.length := by
        simp [count, length]
      have knows := known slot member value held
      have beyond : signature.arguments[(coerced ++ read).length]? = none :=
        List.getElem?_eq_none (by omega)
      rw [same, ← List.append_assoc]
      refine ⟨by simp [length], gathers.append (Memory.Keeps.refl _) ?_
        ⟨gathers.keeps.knows knows, ?_, by rw [beyond]; simp, fun _ => rfl, Or.inl rfl⟩⟩
      · rw [position, Signature.handle?_shared, split]
        simp [held]
      · rw [gathers.keeps.tensor knows, Signature.read, beyond]
    · rintro final ⟨same, released⟩
      rw [sameContainer] at released
      exact ⟨same ▸ gathers.keeps, fun accepts => accepts.container slot member released⟩
  refine (Ends.mapM _ ⟨rfl, by simpa using gathers⟩ step).imp ?_ ?_
  · rintro read final ⟨length, gathers⟩
    exact ⟨by simp [count, length, Signature.length_inputVars], gathers⟩
  · exact fun _ refused => refused

theorem gather_ends (known : ∀ value ∈ arguments, state.memory.Knows value)
    (held : ∀ slot ∈ signature.shared, ∀ value,
      (state.memory.container slot.container).value = some value → state.memory.Knows value) :
    Ends (gather signature arguments) state
      (fun gathered final => signature.Accepts state.memory arguments ∧
        gathered.length = signature.inputVars.length ∧
        signature.Gathers state.memory arguments gathered final.memory)
      (fun final => state.memory.Keeps final.memory ∧
        ¬signature.Accepts state.memory arguments) := by
  unfold gather
  by_cases count : arguments.length = signature.arguments.length
  · rw [if_neg (by simpa using count)]
    refine (coerceAll_ends known count).bind ?_
    rintro coerced middle ⟨length, gathers⟩
    refine (readAll_ends gathers length held).bind ?_
    rintro read final ⟨length, gathers⟩
    exact Ends.pure ⟨gathers.accepts length count, length, gathers⟩
  · rw [if_pos count]
    exact ⟨Memory.Keeps.refl _, fun accepts => count accepts.count⟩

end Gather

/-- Inputs at some positions have been copied if others had their buffers. -/
structure Separates (inputs : List Value) (done : List Nat) (memory : Memory α)
    (separated : List Value) (after : Memory α) : Prop where
  keeps : memory.Keeps after
  length : separated.length = inputs.length
  fixed : ∀ index, index ∉ done → separated[index]? = inputs[index]?
  tensor : ∀ (index : Nat) value copy, inputs[index]? = some value →
    separated[index]? = some copy → after.Knows copy ∧ after.tensor copy = memory.tensor value
  /-- An input that was not copied has a buffer that no later input came with. -/
  own : ∀ index ∈ done, ∀ copy, separated[index]? = some copy →
    memory.buffers.size ≤ copy.buffer.index ∨ inputs[index]? = some copy ∧
      ∀ (later : Nat) value, index < later → inputs[later]? = some value →
        value.buffer ≠ copy.buffer
  apart : ∀ index ∈ done, ∀ (other : Nat) first second, other ≠ index →
    separated[index]? = some first → separated[other]? = some second →
      first.buffer ≠ second.buffer

section Separate

variable {inputs current : List Value} {done : List Nat} {memory middle : Memory α} {index : Nat}
  {value : Value}

theorem separates_nil (known : ∀ value ∈ inputs, memory.Knows value) :
    Separates inputs [] memory inputs memory where
  keeps := Memory.Keeps.refl memory
  length := rfl
  fixed _ _ := rfl
  tensor index value copy found same := by
    rw [found] at same
    cases same
    exact ⟨known value (List.mem_of_getElem? found), rfl⟩
  own := by simp
  apart := by simp

/-- An input that shares its buffer with no other one stays as it is. -/
theorem Separates.pass (separates : Separates inputs done memory current middle)
    (above : ∀ other ∈ done, other < index)
    (alone : ∀ (other : Nat) first second, other ≠ index → current[index]? = some first →
      current[other]? = some second → first.buffer ≠ second.buffer) :
    Separates inputs (done ++ [index]) memory current middle where
  keeps := separates.keeps
  length := separates.length
  fixed other outside := separates.fixed other (by simp at outside; exact outside.1)
  tensor := separates.tensor
  own other member copy found := by
    rcases List.mem_append.mp member with member | member
    · exact separates.own other member copy found
    · rw [List.mem_singleton] at member
      subst member
      have fresh : ∀ later, other ≤ later → later ∉ done := by
        intro later beyond member
        exact absurd (above later member) (by omega)
      refine Or.inr ⟨separates.fixed other (fresh other (Nat.le_refl _)) ▸ found, ?_⟩
      intro later second beyond given
      rw [← separates.fixed later (fresh later (by omega))] at given
      exact (alone later copy second (by omega) found given).symm
  apart other member := by
    rcases List.mem_append.mp member with member | member
    · exact separates.apart other member
    · rw [List.mem_singleton] at member
      subst member
      exact alone

/-- The values that stand for the inputs so far are on buffers that exist. -/
theorem Separates.known (separates : Separates inputs done memory current middle) {other : Nat}
    {held : Value} (found : current[other]? = some held) : middle.Knows held := by
  have inside := (List.getElem?_eq_some_iff.mp found).1
  rw [separates.length] at inside
  exact (separates.tensor other _ held (List.getElem?_eq_getElem inside) found).1

/-- What a list holds after one of its entries has been set. -/
theorem getElem?_set_cases {values : List Value} {other : Nat} {copy held : Value}
    (found : (values.set index copy)[other]? = some held) :
    other = index ∧ held = copy ∨ other ≠ index ∧ values[other]? = some held := by
  by_cases same : other = index
  · subst same
    have inside := (List.getElem?_eq_some_iff.mp found).1
    rw [List.getElem?_set_self (by simpa using inside)] at found
    exact Or.inl ⟨rfl, (Option.some.inj found).symm⟩
  · rw [List.getElem?_set_ne (Ne.symm same)] at found
    exact Or.inr ⟨same, found⟩

/-- An input is copied into a buffer that nothing else has. -/
theorem Separates.copy (separates : Separates inputs done memory current middle)
    (above : ∀ other ∈ done, other < index) (found : current[index]? = some value) :
    Separates inputs (done ++ [index]) memory
      (current.set index ⟨value.element, value.shape, ⟨middle.buffers.size⟩⟩)
      (middle.allocate (middle.contents value)).2 := by
  have kept := middle.keeps_allocate (middle.contents value)
  have new : ∀ (other : Nat) held, current[other]? = some held →
      held.buffer ≠ ⟨middle.buffers.size⟩ := by
    intro other held found same
    have inside := separates.known found
    rw [Memory.Knows, same] at inside
    exact Nat.lt_irrefl _ inside
  refine ⟨separates.keeps.trans kept, by simpa using separates.length, ?_, ?_, ?_, ?_⟩
  · intro other outside
    simp only [List.mem_append, List.mem_singleton, not_or] at outside
    rw [List.getElem?_set_ne (Ne.symm outside.2)]
    exact separates.fixed other outside.1
  · intro other first copy given placed
    rcases getElem?_set_cases placed with ⟨rfl, rfl⟩ | ⟨_, placed⟩
    · have original := separates.tensor other first value given found
      refine ⟨by simp [Memory.Knows], ?_⟩
      rw [← original.2]
      exact congrArg (Tensor.mk _ _) (middle.read_allocate_self _)
    · have original := separates.tensor other first copy given placed
      exact ⟨kept.knows original.1, (kept.tensor original.1).trans original.2⟩
  · intro other member copy placed
    rcases getElem?_set_cases placed with ⟨rfl, rfl⟩ | ⟨different, placed⟩
    · exact Or.inl separates.keeps.size
    · exact separates.own other (by simpa [different] using member) copy placed
  · intro first member second value' value'' different placed placed'
    rcases getElem?_set_cases placed with ⟨rfl, rfl⟩ | ⟨unequal, there⟩
    · rcases getElem?_set_cases placed' with ⟨same, _⟩ | ⟨_, placed'⟩
      · exact absurd same different
      · exact (new second value'' placed').symm
    · rcases getElem?_set_cases placed' with ⟨rfl, rfl⟩ | ⟨_, there'⟩
      · exact new first value' there
      · exact separates.apart first (by simpa [unequal] using member) second value' value'' different
          there there'

theorem separateInput_ends (separates : Separates inputs done memory current state.memory)
    (above : ∀ other ∈ done, other < index) : Ends (separateInput current index) state
      (fun next final => Separates inputs (done ++ [index]) memory next final.memory)
      (fun _ => False) := by
  unfold separateInput
  split
  · rename_i missing
    refine Ends.pure (separates.pass above ?_)
    intro other first second _ found
    rw [missing] at found
    cases found
  · rename_i value found
    dsimp only
    split
    · exact separates.copy above found
    · rename_i unaliased
      refine Ends.pure (separates.pass above ?_)
      intro other first second different found' placed
      rw [found] at found'
      cases found'
      simp only [List.any_eq_true, Prod.exists, List.mk_mem_zipIdx_iff_getElem?, Bool.and_eq_true,
        decide_eq_true_eq, not_exists, not_and, Value.sharesBuffer, ne_eq] at unaliased
      exact unaliased second other placed different

/-- Every input that may be overwritten gets a buffer to itself. -/
theorem separateInputs_ends {writable : List Bool}
    (known : ∀ value ∈ inputs, state.memory.Knows value) :
    Ends (separateInputs inputs writable) state
      (fun separated final => Separates inputs (Dataflow.positions writable true) state.memory
        separated final.memory) (fun _ => False) := by
  refine Ends.foldlM (fun done current (final : Logged α) =>
    Separates inputs done state.memory current final.memory) (separates_nil known) ?_
  intro done index rest current middle split separates
  apply separateInput_ends separates
  have increasing : (done ++ index :: rest).Pairwise (· < ·) := by
    rw [← split]
    exact Dataflow.positions_increasing
  intro other member
  exact (List.pairwise_append.mp increasing).2.2 other member index List.mem_cons_self

end Separate

end Function

namespace Signature

variable {signature : Signature} {memory after : Memory α} {arguments inputs : List Value} {index : Nat}

/-- A call may write to the buffer that an input comes with. Whatever else comes with that buffer and
is not cast is an earlier input that may be overwritten as well. -/
structure Exposes (signature : Signature) (memory : Memory α) (arguments : List Value) (index : Nat)
    (buffer : BufferId) : Prop where
  writable : signature.writable[index]? = some true
  handle : ∃ value, signature.handle? memory arguments index = some value ∧ value.buffer = buffer
  others : ∀ other value, signature.handle? memory arguments other = some value →
    signature.Intact other value → value.buffer = buffer →
      other = index ∨ other < index ∧ signature.writable[other]? = some true

theorem handle?_lt {value : Value} (found : signature.handle? memory arguments index = some value) :
    index < signature.inputVars.length := by
  rw [length_inputVars]
  unfold handle? at found
  split at found
  · omega
  · rcases Option.bind_eq_some_iff.mp found with ⟨slot, listed, _⟩
    have inside := (List.getElem?_eq_some_iff.mp listed).1
    omega

variable [Arithmetic α]

/-- The inputs of a call are prepared: each one stands for the array that its handle stands for, and
those that may be overwritten have buffers to themselves. -/
structure Prepares (signature : Signature) (memory : Memory α) (arguments inputs : List Value)
    (after : Memory α) : Prop where
  accepts : signature.Accepts memory arguments
  keeps : memory.Keeps after
  length : inputs.length = signature.inputVars.length
  origin : ∀ (index : Nat) input, inputs[index]? = some input → ∃ value,
    signature.handle? memory arguments index = some value ∧ after.Knows input ∧
      after.tensor input = signature.read index (memory.tensor value)
  intact : ∀ (index : Nat) value, signature.handle? memory arguments index = some value →
    signature.Intact index value → signature.writable[index]? ≠ some true →
      inputs[index]? = some value
  own : ∀ (index : Nat) input, signature.writable[index]? = some true →
    inputs[index]? = some input → memory.buffers.size ≤ input.buffer.index ∨
      signature.Exposes memory arguments index input.buffer
  apart : ∀ (index other : Nat) first second, signature.writable[index]? = some true →
    other ≠ index → inputs[index]? = some first → inputs[other]? = some second →
      first.buffer ≠ second.buffer

theorem Gathers.separate {gathered : List Value} {middle : Memory α}
    (gathers : signature.Gathers memory arguments gathered middle)
    (accepts : signature.Accepts memory arguments)
    (length : gathered.length = signature.inputVars.length)
    (separates : Function.Separates gathered (Dataflow.positions signature.writable true) middle inputs
      after) : signature.Prepares memory arguments inputs after := by
  have kept : ∀ (index : Nat) value, signature.handle? memory arguments index = some value →
      signature.Intact index value → gathered[index]? = some value := by
    intro index value found intact
    have inside := handle?_lt found
    rw [← length] at inside
    have listed := List.getElem?_eq_getElem inside
    rcases gathers.origin index _ listed with ⟨value', found', takes⟩
    rw [found] at found'
    cases found'
    rw [listed, takes.intact intact]
  refine ⟨accepts, gathers.keeps.trans separates.keeps, separates.length.trans length, ?_, ?_, ?_, ?_⟩
  · intro index input found
    have inside := (List.getElem?_eq_some_iff.mp found).1
    rw [separates.length] at inside
    have listed := List.getElem?_eq_getElem inside
    rcases gathers.origin index _ listed with ⟨value, handle, takes⟩
    rcases separates.tensor index _ input listed found with ⟨known, tensor⟩
    exact ⟨value, handle, known, tensor.trans takes.tensor⟩
  · intro index value found intact fixed
    rw [separates.fixed index fun member => fixed (Dataflow.mem_positions.mp member)]
    exact kept index value found intact
  · intro index input writable found
    rcases separates.own index (Dataflow.mem_positions.mpr writable) input found with
      fresh | ⟨listed, last⟩
    · exact Or.inl (Nat.le_trans gathers.keeps.size fresh)
    · rcases gathers.origin index input listed with ⟨value, handle, takes⟩
      rcases takes.buffer with same | fresh
      · refine Or.inr ⟨writable, ⟨value, handle, same.symm⟩, ?_⟩
        intro other value' handle' intact sameBuffer
        have listed' := kept other value' handle' intact
        rcases Nat.lt_trichotomy other index with before | equal | beyond
        · refine Or.inr ⟨before, ?_⟩
          by_contra fixed
          have unmoved := separates.fixed other fun member => fixed (Dataflow.mem_positions.mp member)
          exact separates.apart index (Dataflow.mem_positions.mpr writable) other input value'
            (by omega) found (unmoved.trans listed') sameBuffer.symm
        · exact Or.inl equal
        · exact absurd sameBuffer (last other value' beyond listed')
      · exact Or.inl fresh
  · intro index other first second writable different found found'
    exact separates.apart index (Dataflow.mem_positions.mpr writable) other first second different
      found found'

end Signature

/-- What a call is given can be used: all handles are on buffers that exist, and whoever answers the
question who holds a buffer knows of the arguments and the containers. -/
structure Memory.Vouches (memory : Memory α) (heldOutside : BufferId → Bool) (arguments : List Value) :
    Prop where
  arguments : ∀ value ∈ arguments, memory.Knows value ∧ heldOutside value.buffer = true
  containers : ∀ container ∈ memory.containers.toList, ∀ value, container.value = some value →
    memory.Knows value ∧ heldOutside value.buffer = true

theorem Memory.Vouches.container {memory : Memory α} {heldOutside : BufferId → Bool}
    {arguments : List Value} (vouches : memory.Vouches heldOutside arguments) {container : ContainerId}
    {value : Value} (held : (memory.container container).value = some value) :
    memory.Knows value ∧ heldOutside value.buffer = true := by
  refine vouches.containers (memory.container container) ?_ value held
  unfold Memory.container at held ⊢
  cases located : memory.containers[container.index]? with
  | none =>
    rw [located] at held
    cases held
  | some content => exact Array.mem_toList_iff.mpr (Array.mem_of_getElem? located)

/-- Inputs are prepared, or a call does not come with what the signature asks for. -/
theorem Function.prepare_ends [Arithmetic α] {signature : Signature} {memory : Memory α}
    {log : List LogEntry} {heldOutside : BufferId → Bool} {arguments : List Value}
    (vouches : memory.Vouches heldOutside arguments) :
    Ends (prepare signature arguments) ⟨memory, log⟩
      (fun inputs final => signature.Prepares memory arguments inputs final.memory)
      (fun final => memory.Keeps final.memory ∧ ¬signature.Accepts memory arguments) := by
  rw [prepare_eq]
  refine (gather_ends (fun value given => (vouches.arguments value given).1)
    fun slot _ value held => (vouches.container held).1).bind ?_
  rintro gathered middle ⟨accepts, length, gathers⟩
  have known : ∀ value ∈ gathered, middle.memory.Knows value := by
    intro value member
    rcases List.mem_iff_getElem?.mp member with ⟨index, found⟩
    rcases gathers.origin index value found with ⟨_, _, takes⟩
    exact takes.known
  exact (separateInputs_ends known).imp (fun _ _ separates => gathers.separate accepts length separates)
    fun _ impossible => impossible.elim

end ArrayGraph
