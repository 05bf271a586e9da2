import ArrayGraph.Proofs.Function.Inputs
import ArrayGraph.Proofs.Run.Rearranged

/-!
# Calls of functions that read containers in another order

A call reads all containers before it does anything else, so that the order in which it does so cannot
be told from what it does. Functions that differ in nothing but this order answer any sequence of calls
alike: with the same results or failures, the same memory after every call, the same log and the same
events.
-/

namespace ArrayGraph

variable {α : Type}

/-- Signatures that a call deals with alike, up to the order of the containers that are only read. A
permutation tells where the arguments and the containers of one signature stand in the other one. -/
structure Signature.Rearranges (π : Equiv.Perm Nat) (signature signature' : Signature) : Prop where
  arguments : signature'.arguments = signature.arguments
  outputs : signature'.outputs.length = signature.outputs.length
  updated : signature'.updated.map (·.1.container) = signature.updated.map (·.1.container)
  arranges : ∀ {γ : Type} (given : List γ) (f : ContainerId → γ),
    given.length = signature.arguments.length →
      Arranges π (given ++ (signature.shared.map (·.container)).map f)
        (given ++ (signature'.shared.map (·.container)).map f)
  writable : Dataflow.positions signature'.writable true = Dataflow.positions signature.writable true
  fixed : ∀ place ∈ Dataflow.positions signature.writable true, π place = place

/-- Errors that are the same, or that differ in which released container or empty slot they name. -/
inductive FunctionError.Alike : FunctionError → FunctionError → Prop
  | refl (cause : FunctionError) : Alike cause cause
  | released (name name' : String) :
      Alike (.container (.released name)) (.container (.released name'))
  | run {cause cause' : RunError} (same : cause.Alike cause') : Alike (.run cause) (.run cause')

/-- Functions that differ in nothing but the order in which containers are read. -/
structure Function.Alike (π : Equiv.Perm Nat) (function function' : Function α) : Prop where
  signature : function.signature.Rearranges π function'.signature
  executable : function.executable.Alike π function'.executable
  report : function'.report = function.report
  profile : function'.profile = function.profile

/-- Calls that cannot be told apart by what they answer, leave and tell of. -/
structure CallOutcome.Same (outcome outcome' : CallOutcome α) : Prop where
  result : outcome.result.Alike FunctionError.Alike Eq outcome'.result
  memory : outcome'.memory = outcome.memory
  log : outcome'.log = outcome.log
  events : outcome'.events = outcome.events

namespace Function

variable {π : Equiv.Perm Nat} {signature signature' : Signature} {β γ δ ε κ σ : Type}

theorem mapM_length {act : κ → EStateM ε σ β} {items : List κ} {state final : σ} {values : List β}
    (ran : items.mapM act state = .ok values final) : values.length = items.length := by
  induction items generalizing state final values with
  | nil =>
    rw [List.mapM_nil] at ran
    cases ran
    rfl
  | cons head rest ih =>
    rw [List.mapM_cons] at ran
    rcases bind_eq_ok_iff.mp ran with ⟨value, middle, _, others⟩
    rcases bind_eq_ok_iff.mp others with ⟨more, last, mapped, answer⟩
    cases answer
    rw [List.length_cons, List.length_cons, ih mapped]

section Preparing

/-- Parts of calls that go the same way from the same state. -/
abbrev Together (related : β → γ → Prop) : Compilation α β → Compilation α γ → Prop :=
  Parallel Eq (Failure.Alike FunctionError.Alike) related

theorem together_self (part : Compilation α β) : Together Eq part part := by
  rintro state _ rfl
  cases part state with
  | ok value final => exact .ok rfl rfl
  | error failure final => exact .error (.refl .refl failure) rfl

theorem together_mapM {κ : Type} (act : κ → Compilation α β) (items : List κ) :
    Together (fun values values' => values' = values ∧ values.length = items.length)
      (items.mapM act) (items.mapM act) := by
  rintro state _ rfl
  cases ran : items.mapM act state with
  | ok values final => exact .ok ⟨rfl, mapM_length ran⟩ rfl
  | error failure final => exact .error (.refl .refl failure) rfl

/-- What a container holds, if it holds anything. -/
def held (memory : Memory α) (container : ContainerId) : Value :=
  (memory.container container).value.getD default

/-- Reading containers does not change anything. It fails if one of them has been released. -/
theorem readAll_cases (slots : List SharedSlot) (state : Logged α) :
    (∀ container ∈ slots.map (·.container), (state.memory.container container).value ≠ none) ∧
        (slots.mapM fun slot => Compilation.onMemory FunctionError.container
          (Container.getValue slot.container true)) state =
            .ok ((slots.map (·.container)).map (held state.memory)) state ∨
      (∃ container ∈ slots.map (·.container), (state.memory.container container).value = none) ∧
        ∃ name, (slots.mapM fun slot => Compilation.onMemory FunctionError.container
          (Container.getValue slot.container true)) state =
            .error (.error (.container (.released name))) state := by
  induction slots with
  | nil => exact Or.inl ⟨by simp, rfl⟩
  | cons slot rest ih =>
    rw [List.mapM_cons]
    cases value : (state.memory.container slot.container).value with
    | none =>
      refine Or.inr ⟨⟨slot.container, by simp, value⟩, (state.memory.container slot.container).name, ?_⟩
      refine bind_of_error ?_
      rw [Compilation.onMemory, Container.getValue_of_none value]
      rfl
    | some content =>
      have first : (Compilation.onMemory FunctionError.container
          (Container.getValue slot.container true) : Compilation α Value) state =
            .ok (held state.memory slot.container) state := by
        rw [Compilation.onMemory, Container.getValue_of_some value, held, value]
        rfl
      rw [bind_of_ok first]
      rcases ih with ⟨present, ran⟩ | ⟨⟨container, member, missing⟩, name, ran⟩
      · refine Or.inl ⟨?_, ?_⟩
        · simpa [value] using present
        · rw [bind_of_ok ran]
          rfl
      · refine Or.inr ⟨⟨container, by simp [member], missing⟩, name, ?_⟩
        rw [bind_of_error ran]

/-- Containers that are read in another order give the same values in another order. -/
theorem together_readAll {slots slots' : List SharedSlot}
    (same : ∀ container, container ∈ slots'.map (·.container) ↔ container ∈ slots.map (·.container)) :
    Together (α := α)
      (fun values values' => ∃ f : ContainerId → Value,
        values = (slots.map (·.container)).map f ∧ values' = (slots'.map (·.container)).map f)
      (slots.mapM fun slot => Compilation.onMemory FunctionError.container
        (Container.getValue slot.container true))
      (slots'.mapM fun slot => Compilation.onMemory FunctionError.container
        (Container.getValue slot.container true)) := by
  rintro state _ rfl
  rcases readAll_cases slots state with ⟨present, ran⟩ | ⟨⟨container, member, missing⟩, name, ran⟩ <;>
    rcases readAll_cases slots' state with
      ⟨present', ran'⟩ | ⟨⟨container', member', missing'⟩, name', ran'⟩
  · rw [ran, ran']
    exact .ok ⟨held state.memory, rfl, rfl⟩ rfl
  · exact absurd missing' (present container' ((same container').mp member'))
  · exact absurd missing (present' container ((same container).mpr member))
  · rw [ran, ran']
    exact .error (.error (.released name name')) rfl

variable [Arithmetic α]

theorem together_gather (rearranges : signature.Rearranges π signature') (arguments : List Value) :
    Together (α := α) (Arranges π) (gather signature arguments) (gather signature' arguments) := by
  have containers : ∀ container, container ∈ signature'.shared.map (·.container) ↔
      container ∈ signature.shared.map (·.container) := by
    intro container
    have arranges := rearranges.arranges (List.replicate signature.arguments.length none) some
      List.length_replicate
    have listed : some container ∈ _ ↔ some container ∈ _ := arranges.mem_iff
    simpa using listed
  unfold gather
  rw [rearranges.arguments]
  by_cases count : arguments.length = signature.arguments.length
  · simp only [ne_eq, count, not_true_eq_false, if_false]
    refine (together_mapM _ _).bind ?_
    rintro _ coerced ⟨rfl, length⟩
    refine (together_readAll containers).bind ?_
    rintro _ _ ⟨f, rfl, rfl⟩
    refine .pure (rearranges.arranges coerced f ?_)
    simp [length, count]
  · simp only [ne_eq, count, not_false_eq_true, if_true]
    exact Parallel.bind (.throw (.refl .refl _)) fun _ _ (none : False) => none.elim

/-- An input at a place that stays shares its buffer with another one in the same cases. -/
theorem any_sharesBuffer {inputs inputs' : List Value} (arranges : Arranges π inputs inputs')
    {index : Nat} (fixed : π index = index) (value : Value) :
    (inputs'.zipIdx.any fun (other, position) => position ≠ index && value.sharesBuffer other) =
      inputs.zipIdx.any fun (other, position) => position ≠ index && value.sharesBuffer other := by
  have apart : ∀ place, π place ≠ index ↔ place ≠ index := by
    intro place
    rw [← fixed, ne_eq, ne_eq, π.injective.eq_iff, fixed]
  rw [Bool.eq_iff_iff, List.any_eq_true, List.any_eq_true]
  constructor
  · rintro ⟨⟨other, position⟩, member, shares⟩
    rw [List.mem_zipIdx_iff_getElem?] at member
    refine ⟨⟨other, π.symm position⟩, ?_, ?_⟩
    · rw [List.mem_zipIdx_iff_getElem?, ← arranges.item, Equiv.apply_symm_apply, member]
    · have same := apart (π.symm position)
      rw [Equiv.apply_symm_apply] at same
      simpa [same] using shares
  · rintro ⟨⟨other, position⟩, member, shares⟩
    rw [List.mem_zipIdx_iff_getElem?] at member
    refine ⟨⟨other, π position⟩, ?_, by simpa [apart position] using shares⟩
    rw [List.mem_zipIdx_iff_getElem?, arranges.item, member]

omit [Arithmetic α] in
/-- An input at a place that stays is copied in the same cases. -/
theorem together_separateInput {inputs inputs' : List Value} (arranges : Arranges π inputs inputs')
    {index : Nat} (fixed : π index = index) :
    Together (α := α) (Arranges π) (separateInput inputs index) (separateInput inputs' index) := by
  have item : inputs'[index]? = inputs[index]? := by rw [← arranges.item, fixed]
  unfold separateInput
  rw [item]
  cases inputs[index]? with
  | none => exact .pure arranges
  | some value =>
    simp only [any_sharesBuffer arranges fixed value]
    split
    · refine (together_self _).bind fun _ _ _ => (together_self _).bind ?_
      rintro copy _ rfl
      exact .pure (arranges.set fixed copy)
    · exact .pure arranges

theorem together_prepare (rearranges : signature.Rearranges π signature') (arguments : List Value) :
    Together (α := α) (Arranges π) (prepare signature arguments) (prepare signature' arguments) := by
  rw [prepare_eq, prepare_eq]
  refine (together_gather rearranges arguments).bind fun inputs inputs' arranges => ?_
  unfold separateInputs
  rw [rearranges.writable]
  refine .foldlM (paired_self _) ?_ arranges
  rintro inputs inputs' index _ arranges ⟨rfl, member⟩
  exact together_separateInput arranges (rearranges.fixed _ member)

end Preparing

/-- What is written back depends on nothing but the containers. -/
theorem writeBack_rearranged (rearranges : signature.Rearranges π signature') (values : List Value) :
    (writeBack signature' values : Compilation α Unit) = writeBack signature values := by
  have containers : ∀ signature : Signature, (writeBack signature values : Compilation α Unit) =
      ((signature.updated.map (·.1.container)).zip values).forM fun (container, value) =>
        Compilation.onMemory FunctionError.container (Container.setValue container value true) := by
    intro signature
    simp only [writeBack, List.zip_map_left, List.forM_eq_forM, List.forM_map]
    rfl
  rw [containers, containers, rearranges.updated]

theorem Alike.countNodes {function function' : Function α} (alike : function.Alike π function')
    (executed : List (NodeId × String)) :
    (function.countNodes executed).Alike π (function'.countNodes executed) :=
  ⟨alike.signature, alike.executable, alike.report, by
    simp only [Function.countNodes, alike.profile]⟩

variable [Arithmetic α]

/-- Functions that differ in the order in which containers are read answer a call alike, and differ in
nothing else after it. -/
theorem Alike.call {function function' : Function α} (alike : function.Alike π function')
    (heldOutside : BufferId → Bool) (arguments : List Value) (memory : Memory α) :
    (function.call heldOutside arguments memory).Same (function'.call heldOutside arguments memory) ∧
      (function.call heldOutside arguments memory).function.Alike π
        (function'.call heldOutside arguments memory).function := by
  unfold Function.call
  rcases (together_prepare alike.signature arguments ⟨memory, []⟩ _ rfl).cases with
    ⟨inputs, inputs', prepared, _, ran, ran', arranges, rfl⟩ |
      ⟨failure, failure', left, _, ran, ran', same, rfl⟩
  · rw [ran, ran']
    dsimp only
    have outcomes := alike.executable.run heldOutside arranges prepared.memory
    generalize function.executable.run heldOutside inputs prepared.memory = outcome at outcomes ⊢
    generalize function'.executable.run heldOutside inputs' prepared.memory = outcome' at outcomes ⊢
    have left : Alike π { function with executable := outcome.executable }
        { function' with executable := outcome'.executable } :=
      ⟨alike.signature, outcomes.executable, alike.report, alike.profile⟩
    have counted := left.countNodes outcome.executed
    have results := outcomes.result
    rw [outcomes.executed]
    generalize outcome.result = result at results ⊢
    generalize outcome'.result = result' at results ⊢
    cases results with
    | error same =>
      exact ⟨⟨.error (same.map fun _ _ => .run), outcomes.memory, rfl, outcomes.events⟩, counted⟩
    | @ok values _ same =>
      subst same
      dsimp only
      rw [writeBack_rearranged alike.signature, alike.signature.outputs, outcomes.memory, outcomes.events]
      cases writeBack function.signature (values.drop function.signature.outputs.length)
          ⟨outcome.memory, prepared.log⟩ with
      | error failure state => exact ⟨⟨.error (.refl .refl failure), rfl, rfl, rfl⟩, counted⟩
      | ok _ state =>
        exact ⟨⟨.ok rfl, rfl, rfl, rfl⟩, counted.signature, counted.executable, counted.report, by
          simp only [counted.profile]⟩
  · rw [ran, ran']
    exact ⟨⟨.error same, rfl, rfl, rfl⟩, alike⟩

/-- A call, with what has become of the memory since the last one and with the buffers that are held
by anyone but the function. -/
structure Occasion (α : Type) where
  since : Memory α → Memory α
  heldOutside : BufferId → Bool
  arguments : List Value

/-- What comes of a sequence of calls. -/
def respond (function : Function α) : List (Occasion α) → Memory α → List (CallOutcome α)
  | [], _ => []
  | occasion :: rest, memory =>
    let outcome := function.call occasion.heldOutside occasion.arguments (occasion.since memory)
    outcome :: outcome.function.respond rest outcome.memory

/-- Functions that differ in the order in which containers are read cannot be told apart by any
sequence of calls. -/
theorem Alike.respond {function function' : Function α} (alike : function.Alike π function')
    (occasions : List (Occasion α)) (memory : Memory α) :
    List.Forall₂ CallOutcome.Same (function.respond occasions memory)
      (function'.respond occasions memory) := by
  induction occasions generalizing function function' memory with
  | nil => exact .nil
  | cons occasion rest ih =>
    have called := alike.call occasion.heldOutside occasion.arguments (occasion.since memory)
    refine .cons called.1 ?_
    rw [called.1.memory]
    exact ih called.2 _

end Function

end ArrayGraph
